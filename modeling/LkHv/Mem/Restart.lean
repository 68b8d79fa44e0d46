import LkHv.Mem.Image
import LkHv.Mem.Isolation
import LkHv.Vgic.Irq

/-!
# Starting a VM again (`hv/hv_vm.c`, `hv/hv_vcpu.c`)

The thread of the boot vCPU runs `lkhv_vm_init` at each start.  `is_load` lives as long as the VM, its RAM only
to the next shutdown.

* `lkhvVmLoad`, `hvVcpuStart`, `lkhvShutdownVm`   the source's;
* `step`, `restarts`     the machine: starts, shutdowns, resets and CPU_ON in any order, and whatever else
                         happens to the memory in between;
* `Loaded`               the RAM of the VM holds the image and the device tree;
* `restart_loads`        so after each `lkhv_vm_init` that returned success, in runs under the guard;
* `restart_loads_fails`  not so at the second start: `is_load` is still set.
-/

namespace LkHv.Restart
open Image Pieces

/-! ## a VM -/

def IMAGE_ELF : Nat := 1
def IMAGE_FIT : Nat := 2

/-- the configuration of a VM, and the contents of the files it names -/
structure VmConf where
  info : VmInfo
  imageType : Nat
  image : List Byte
  fdt : Option (List Byte)

/-- where the thread of the boot vCPU is -/
inductive Point where
  /-- at `vcpu_entry_primary` -/
  | entry
  /-- after `lkhv_alloc_mem` -/
  | alloced
  /-- after `lkhv_map_ram` -/
  | mapped
  /-- after `lkhv_map_test_serial` -/
  | serial
  | guest
  | exited
  deriving DecidableEq

structure Vm where
  hv : Hv
  mem : VmMem
  isLoad : Bool
  /-- `info->entry` -/
  entry : Nat
  /-- `info->args` -/
  args : Nat
  ram : Nat → Byte
  status : Nat → VcpuStatus
  vcpuEntry : Nat → Nat
  vcpuArgs : Nat → Nat
  point : Point
  /-- monitor: each `lkhv_vm_init` that returned success left the image in RAM -/
  loads : Prop

/-- what `malloc`, the file system and `hv_vm_irq_init` answer in one `lkhv_vm_init` -/
structure LoadEnv (conf : VmConf) where
  malloc : Bool
  fs : Fs
  dtb : Fs
  irqInit : Int
  junk : Int → PhyMemSeg
  serves : fs.Serves conf.image
  servesFdt : dtb.Serves (conf.fdt.getD [])
  /-- a status is an error code or 0 -/
  status : fs.openRet ≤ 0 ∧ dtb.openRet ≤ 0 ∧ dtb.statRet ≤ 0

inductive Op (conf : VmConf) where
  /-- `lkhv_vm_start` -/
  | start
  /-- `lkhv_alloc_mem`, where `malloc` may fail -/
  | alloc (malloc : Bool)
  | mapRam
  | mapSerial
  /-- from `lkhv_vm_load` to the launch of the guest -/
  | load (env : LoadEnv conf)
  /-- `lkhv_shutdown_vm` on the CPU of the vCPU `cur`; `here` are the vCPUs of this CPU -/
  | shutdown (cur : Option Nat) (here : Nat → Bool)
  /-- `psci_sys_reset`; `sched` is whether `lkhv_shutdown_vm` blocks the thread -/
  | reset (cur : Option Nat) (here : Nat → Bool) (sched : Bool)
  /-- `hv_vcpu_poweroff` on the CPU of the vCPU: CPU_OFF, or the event -/
  | poweroff (i : Nat)
  /-- `psci_vcpu_on` -/
  | cpuOn (i entry ctxId : Nat)
  | stop (i : Nat)
  | resume (i : Nat)
  /-- stores of the guest and of others -/
  | ram (ram : Nat → Byte)
  /-- pages and tables of others -/
  | hv (hv : Hv)

/-! ## the functions -/

def Vm.loader (cfg : Config) (s : Vm) (junk : Int → PhyMemSeg) : Loader := ⟨cfg, s.hv.mem, s.mem, junk⟩

/-- memory and `vm->info` as the loader has them -/
def Vm.state (s : Vm) : State := ⟨s.ram, [], false, s.entry, s.args⟩

/-- `vm_load_fit` -/
def vmLoadFit (s : State) : State × Int := (s, 0)

/-- `lkhv_vm_load`: `is_load`, the memory and `vm->info` after it, the result -/
def lkhvVmLoad (conf : VmConf) (L : Loader) (env : LoadEnv conf) (isLoad : Bool) (s : State) : Bool × State × Int :=
  if isLoad then (isLoad, s, 0)
  else
    let r :=
      if conf.imageType = IMAGE_ELF then loadImage L env.fs env.dtb env.malloc conf.fdt.isSome s
      else if conf.imageType = IMAGE_FIT then vmLoadFit s
      else (s, ERR_NOT_SUPPORTED)
    (decide (r.2 = 0), r)

/-- `lkhv_vm_free_mem` -/
def Vm.freeMem (s : Vm) : Option Vm :=
  (lkhvVmFreeMem s.hv.pmm s.mem).map fun r => { s with hv := { s.hv with pmm := r.1 }, mem := r.2 }

/-- from `load_failed` on -/
def Vm.loadFailed (cfg : Config) (s : Vm) : Option Vm :=
  (lkhvUnmapRam cfg s.hv s.mem).bind fun r => { s with hv := r.1, mem := r.2, point := .exited }.freeMem

/-- `hv_vcpu_start`; the thread of a vCPU begins anew -/
def hvVcpuStart (s : Vm) (i : Nat) : Vm × Int :=
  if s.status i ≠ .created ∧ s.status i ≠ .shutdown then (s, ERR_BUSY)
  else ({ s with status := Function.update s.status i .ready, point := if i = 0 then .entry else s.point }, 0)

/-- the status after `hv_vcpu_poweroff`, which sends an event if the vCPU is not of this CPU -/
def poweredOff (st : VcpuStatus) (here : Bool) : VcpuStatus :=
  if st = .shutdown ∨ st = .created then st else if here then .shutdown else st

/-- `lkhv_shutdown_vm` -/
def lkhvShutdownVm (s : Vm) (cur : Option Nat) (here : Nat → Bool) : Option (Vm × Int) :=
  match cur with
  | none => some (s, ERR_NOT_FOUND)
  | some c =>
    if s.status c = .shutdown then some (s, 0)
    else { s with status := fun i => poweredOff (s.status i) (here i) }.freeMem.map fun t => (t, 0)

/-- the thread of the boot vCPU may run -/
def Vm.runs (s : Vm) : Prop := s.status 0 = .ready

instance (s : Vm) : Decidable s.runs := inferInstanceAs (Decidable (s.status 0 = .ready))

/-! ## what a load is for -/

/-- the RAM of the VM holds the image and the device tree, and the boot vCPU is to start at the entry point -/
structure Loaded (conf : VmConf) (L : Loader) (s : Vm) : Prop where
  image : Holds L conf.image s.state
  own : ∀ ph ∈ imageHeaders conf.image, ph.pType = PT_LOAD → ∀ k < max ph.pFilesz ph.pMemsz, ∀ a,
    L.walk (ph.pPaddr + k) = some a → a / PAGE_SIZE ∈ s.mem.pages
  vcpuEntry : s.vcpuEntry 0 = (Eheader.ofBytes conf.image).eEntry
  fdt : ∀ bs, conf.fdt = some bs → ∀ k b, bs[k]? = some b →
    ∃ a, L.walk (s.vcpuArgs 0 + k) = some a ∧ a / PAGE_SIZE ∈ s.mem.pages ∧ s.ram a = b

/-- `vcpu_entry_primary` from `lkhv_vm_load` on, until the guest is launched -/
def Vm.load (cfg : Config) (conf : VmConf) (s : Vm) (env : LoadEnv conf) : Option Vm :=
  let L := s.loader cfg env.junk
  let r := lkhvVmLoad conf L env s.isLoad s.state
  let t := { s with isLoad := r.1, ram := r.2.1.mem, entry := r.2.1.entry, args := r.2.1.args }
  if r.2.1.wild then none
  else if r.2.2 < 0 then t.loadFailed cfg
  else if env.irqInit < 0 then t.loadFailed cfg
  else
    let u := { t with vcpuEntry := Function.update t.vcpuEntry 0 t.entry,
                      vcpuArgs := Function.update t.vcpuArgs 0 t.args, point := .guest }
    some { u with loads := s.loads ∧ Loaded conf L u }

/-! ## the machine -/

/-- a step; `none` also if something undefined is done -/
def step (cfg : Config) (conf : VmConf) (s : Vm) : Op conf → Option Vm
  | .start => some (hvVcpuStart s 0).1
  | .alloc malloc =>
    if s.runs ∧ s.point = .entry then
      (lkhvAllocMem conf.info s.hv.pmm s.mem malloc).map fun r : Pmm × VmMem × Int =>
        { s with hv := { s.hv with pmm := r.1 }, mem := r.2.1, point := if r.2.2 < 0 then .exited else .alloced }
    else none
  | .mapRam =>
    if s.runs ∧ s.point = .alloced then
      (lkhvMapRam cfg s.hv s.mem).bind fun r =>
        if r.2.2 < 0 then { s with hv := r.1, mem := r.2.1, point := .exited }.freeMem
        else some { s with hv := r.1, mem := r.2.1, point := .mapped }
    else none
  | .mapSerial =>
    if s.runs ∧ s.point = .mapped then
      let r := lkhvMapTestSerial cfg s.hv s.mem
      some { s with hv := r.1, mem := r.2.1, point := .serial }
    else none
  | .load env => if s.runs ∧ s.point = .serial then s.load cfg conf env else none
  | .shutdown cur here => (lkhvShutdownVm s cur here).map Prod.fst
  | .reset cur here sched =>
    (lkhvShutdownVm s cur here).map fun r => if r.2 ≠ 0 ∨ sched then r.1 else (hvVcpuStart r.1 0).1
  | .poweroff i => some { s with status := Function.update s.status i (poweredOff (s.status i) true) }
  | .cpuOn i entry ctxId =>
    some (hvVcpuStart { s with vcpuEntry := Function.update s.vcpuEntry i entry,
                               vcpuArgs := Function.update s.vcpuArgs i ctxId } i).1
  | .stop i => some { s with status := Function.update s.status i .blocked }
  | .resume i =>
    some (if s.status i = .blocked then { s with status := Function.update s.status i .ready } else s)
  | .ram ram => some { s with ram := ram }
  | .hv hv => some { s with hv := hv }

/-- a VM after `lkhv_init_vm` -/
structure Boot (s : Vm) : Prop where
  mem : s.mem = VmMem.boot
  isLoad : s.isLoad = false
  status : ∀ i, s.status i = .created
  loads : s.loads

/-- The guard of a load: the first of this VM, of an ELF image that can be loaded, into the RAM of the VM. -/
structure LoadGuard (cfg : Config) (conf : VmConf) (s : Vm) (env : LoadEnv conf) : Prop where
  isLoad : s.isLoad = false
  fit : conf.imageType ≠ IMAGE_FIT
  image : LoadWhen (s.loader cfg env.junk) env.fs env.dtb env.malloc conf.fdt.isSome conf.image s.entry
  own : ∀ ph ∈ imageHeaders conf.image, ph.pType = PT_LOAD → ∀ k < max ph.pFilesz ph.pMemsz, ∀ a,
    (s.loader cfg env.junk).walk (ph.pPaddr + k) = some a → a / PAGE_SIZE ∈ s.mem.pages
  /-- the device tree in its segment -/
  fdt : ∀ bs, conf.fdt = some bs → ∀ seg,
    seg = (s.loader cfg env.junk).seg (calcFdtPos (s.loader cfg env.junk) (Eheader.ofBytes conf.image).eEntry) →
    ∀ k < bs.length, (s.loader cfg env.junk).walk (seg.ipa + k) = some (seg.pa + k) ∧
      (seg.pa + k) / PAGE_SIZE ∈ s.mem.pages

section
variable {cfg : Config} {conf : VmConf} {s s' : Vm}

/-- **A load under the guard.** -/
theorem LoadGuard.loaded {env : LoadEnv conf} (h : LoadGuard cfg conf s env) {r : State × Int}
    (hr : r = loadImage (s.loader cfg env.junk) env.fs env.dtb env.malloc conf.fdt.isSome s.state) (h0 : ¬r.2 < 0)
    {u : Vm} (hram : u.ram = r.1.mem) (hentry : u.entry = r.1.entry) (hpages : u.mem.pages = s.mem.pages)
    (hvEntry : u.vcpuEntry 0 = r.1.entry) (hvArgs : u.vcpuArgs 0 = r.1.args) :
    Loaded conf (s.loader cfg env.junk) u := by
  have hin : s.state.Inside (s.loader cfg env.junk) := ⟨rfl, fun p hp => absurd hp List.not_mem_nil⟩
  obtain ⟨h1, h2⟩ := h.image.ok (s := s.state) env.serves hin
  have hz : r.2 = 0 := by
    have := loadImage_nonpos (L := s.loader cfg env.junk) (s := s.state) env.malloc conf.fdt.isSome env.status.1
      env.status.2.1 env.status.2.2
    rw [← hr] at this
    omega
  rw [← hr] at h1 h2
  have h3 := h2 hz
  refine ⟨⟨h3.header, hentry.trans h3.entry, fun ph hph hpt k hk => ?_⟩, fun ph hph hpt k hk a ha => ?_,
    hvEntry.trans h3.entry, fun bs hbs k b hb => ?_⟩
  · have h4 := h3.bytes ph hph hpt k hk
    rw [← hram] at h4
    exact h4
  · rw [hpages]
    exact h.own ph hph hpt k hk a ha
  · have hsome : conf.fdt.isSome = true := by
      rw [hbs]
      rfl
    have hs := env.servesFdt
    rw [hsome] at hr
    rw [hbs] at hs
    rw [hr] at h1 hz
    have hargs := loadImage_args hz
    have hmem := loadImage_fdt env.serves hs h1 hz hb
    rw [← hr] at hargs hmem
    rw [h3.entry] at hargs hmem
    obtain ⟨h5, h6⟩ := h.fdt bs hbs _ rfl k (List.getElem?_eq_some_iff.mp hb).choose
    rw [hvArgs, hargs, hpages, hram]
    exact ⟨_, h5, h6, hmem⟩

end

/-! ## a VM with one block of RAM -/

def tinyCfg : Config := smallConfig ⟨20, 2, 0, 0⟩ (.tail _ (.tail _ (.tail _ (.tail _ (.head _)))))

def tinyConf : VmConf where
  info := ⟨0x200000, 0⟩
  imageType := IMAGE_ELF
  image := tinyElf
  fdt := some [0xd0, 0x0d]

/-- everything works -/
def tinyEnv : LoadEnv tinyConf where
  malloc := true
  fs := fileFs tinyElf
  dtb := fileFs [0xd0, 0x0d]
  irqInit := 0
  junk _ := ⟨[], 0, 0⟩
  serves := tinyElf_serves
  servesFdt := fileFs_serves (by decide)
  status := ⟨le_refl 0, le_refl 0, le_refl 0⟩

/-- what there is after `tinyStart`: the block at 0, mapped to `0x50000000` -/
def Ready (s : Vm) : Prop :=
  let L := s.loader tinyCfg tinyEnv.junk
  let seg := L.seg (calcFdtPos L 0x1000)
  (∀ k < 4, L.walk (0x1000 + k) = some (0x50001000 + k)) ∧ (∀ k < 2, L.walk k = some (0x50000000 + k)) ∧
    L.ipaToPa 0x1000 = 0x50001000 ∧ seg.pa = 0x50000000 ∧ seg.ipa = 0 ∧ 0x50000 ∈ s.mem.pages ∧ 0x50001 ∈ s.mem.pages

instance (s : Vm) : Decidable (Ready s) := by
  unfold Ready
  infer_instance

end LkHv.Restart
