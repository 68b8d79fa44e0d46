import LkHv.Lib.Links
import LkHv.Kernel.Err
import Mathlib.Algebra.Order.Group.Nat

/-!
# The virtual interrupt controller (`hv_vgic.c`, `vgic_gic.c`, `vgic_mmio.c`)

The interrupts of all VMs, the list registers of all CPUs and what `current_vcpu()` is on each.

* `VgicIrq`, `GicLr`, `Vgic`   an interrupt, a list register, the state;
* `insertIntoPdlist`, `vcpuInjectVirq`, `injectVirq`   queueing an interrupt;
* `flushQueuedVirqs`, `syncIrqFromLrs`   between the pending list and the list registers;
* `virqCpending`, `virqEnable`, `migrateVirq`, `irouterWrite`   what the guest does to the distributor;
* `irqCleanup`, `vcpuPoweroff`, `irqSave`, `irqRestore`, `irqInit`   power-off, switch and start of a vCPU.

A physical interrupt controller is not part of the model: nothing it does changes this state but by calling
`hv_inject_virq`, which may happen at any time.
-/

namespace LkHv

/-! ## data -/

structure VcpuId where
  vm : Nat
  id : Nat
  deriving DecidableEq

/-- where a `struct vgic_irq` is: in `irqs` of a redistributor, or in `spis` of a distributor -/
inductive VirqId where
  | priv (v : VcpuId) (i : Nat)
  | spi (vm i : Nat)
  deriving DecidableEq

def GIC_BASE_SPI : Nat := 32
def LR_INDEX_INVALID : Nat := 0xff
def VIRQ_DEFAULT_PRI : Nat := 100

/-- `struct vgic_irq`; `pdNode` and `lrNode` say whether the nodes are linked -/
structure VgicIrq where
  vcpu : Option VcpuId
  priority : Nat
  pending : Bool
  active : Bool
  enable : Bool
  group : Bool
  pdq : Bool
  migrate : Bool
  lr : Nat
  iroute : Nat
  pdNode : Bool
  lrNode : Bool

/-- `init_virq` -/
def initVirq : VgicIrq where
  vcpu := none
  priority := VIRQ_DEFAULT_PRI
  pending := false
  active := false
  enable := false
  group := true
  pdq := false
  migrate := false
  lr := LR_INDEX_INVALID
  iroute := 0
  pdNode := false
  lrNode := false

/-- `LR_ST_*` -/
inductive LrState where
  | invalid
  | pending
  | active
  | actPend
  deriving DecidableEq

/-- the fields of a list register -/
structure GicLr where
  virq : Nat
  pirq : Nat
  priority : Nat
  group : Bool
  hw : Bool
  state : LrState
  deriving DecidableEq

def GicLr.zero : GicLr := ⟨0, 0, 0, false, false, .invalid⟩

/-- `enum vcpu_status` -/
inductive VcpuStatus where
  | created
  | ready
  | running
  | blocked
  | suspend
  | shutdown
  | destroy
  | initf
  deriving DecidableEq

/-- the board and the VMs -/
structure VgicConfig where
  /-- `vcpu_num` -/
  vcpuNum : Nat → Nat
  /-- `spi_num` -/
  spiNum : Nat
  /-- the physical interrupt that `hv_map_irq_to_guest` routes to an SPI -/
  spiMap : Nat → Nat → Option Nat
  /-- `vgic_info.lr_nr`, the field `ListRegs` of `ICH_VTR_EL2` -/
  lrNr : Nat
  lrNr_le : lrNr ≤ 15
  cpus : Nat

/-- the field `intid`, which only `init_virq` writes -/
def VgicConfig.intid (cfg : VgicConfig) : VirqId → Nat
  | .priv _ i => i
  | .spi vm i => if (cfg.spiMap vm i).isSome then GIC_BASE_SPI + i else 0

/-- the field `hwintid`, which only `init_virq` writes -/
def VgicConfig.hwintid (cfg : VgicConfig) : VirqId → Nat
  | .priv _ i => i
  | .spi vm i => (cfg.spiMap vm i).getD 0

structure Vgic where
  irqs : VirqId → VgicIrq
  pdHead : VcpuId → List VirqId
  lrHead : VcpuId → List VirqId
  /-- the saved list registers -/
  lr : VcpuId → Nat → GicLr
  status : VcpuId → VcpuStatus
  /-- `VCPU_FLAGS_EVENT` in `flags` -/
  event : VcpuId → Bool
  /-- `hv_vcpu_cpu_id` -/
  cpuId : VcpuId → Option Nat
  /-- the list registers of the CPUs -/
  ichLr : Nat → Nat → GicLr
  /-- `current_vcpu()` of the CPUs -/
  vcpu : Nat → Option VcpuId
  /-- the CPUs that run a guest -/
  guest : Nat → Bool
  /-- the vCPUs started whose `hv_vcpu_irq_init` is still to come -/
  starting : VcpuId → Bool
  /-- monitor: an operation of one interrupt changed a valid list register of another INTID -/
  clash : Bool

namespace Vgic

def setIrq (s : Vgic) (x : VirqId) (f : VgicIrq → VgicIrq) : Vgic :=
  { s with irqs := Function.update s.irqs x (f (s.irqs x)) }

theorem setIrq_irqs (s : Vgic) (x y : VirqId) (f : VgicIrq → VgicIrq) :
    (s.setIrq x f).irqs y = if y = x then f (s.irqs x) else s.irqs y :=
  Function.update_apply _ _ _ _

@[simp] theorem setIrq_self (s : Vgic) (x : VirqId) (f : VgicIrq → VgicIrq) :
    (s.setIrq x f).irqs x = f (s.irqs x) := by
  rw [setIrq_irqs, if_pos rfl]

theorem setIrq_of_ne (s : Vgic) {x y : VirqId} (f : VgicIrq → VgicIrq) (h : y ≠ x) :
    (s.setIrq x f).irqs y = s.irqs y := by
  rw [setIrq_irqs, if_neg h]

/-- `list_delete` and `list_initialize` of `pd_node` -/
def unlinkPd (s : Vgic) (x : VirqId) : Vgic :=
  { s.setIrq x fun r => { r with pdNode := false } with pdHead := Links.unlink s.pdHead x }

/-- `list_delete` and `list_initialize` of `lr_node` -/
def unlinkLr (s : Vgic) (x : VirqId) : Vgic :=
  { s.setIrq x fun r => { r with lrNode := false } with lrHead := Links.unlink s.lrHead x }

/-- the list of `v` with `x` put on it -/
def linkPd (s : Vgic) (x : VirqId) (v : VcpuId) (l : List VirqId) : Vgic :=
  { s.setIrq x fun r => { r with pdNode := true } with pdHead := Function.update s.pdHead v l }

@[simp] theorem unlinkPd_irqs (s : Vgic) (x : VirqId) :
    (s.unlinkPd x).irqs = (s.setIrq x fun r => { r with pdNode := false }).irqs := rfl

@[simp] theorem linkPd_irqs (s : Vgic) (x : VirqId) (v : VcpuId) (l : List VirqId) :
    (s.linkPd x v l).irqs = (s.setIrq x fun r => { r with pdNode := true }).irqs := rfl

@[simp] theorem linkPd_pdHead (s : Vgic) (x : VirqId) (v : VcpuId) (l : List VirqId) :
    (s.linkPd x v l).pdHead = Function.update s.pdHead v l := rfl

/-! ## list registers -/

/-- `lr_read` on the CPU `c` -/
def lrRead (s : Vgic) (c k : Nat) : GicLr := if k < 16 then s.ichLr c k else GicLr.zero

/-- `lr_write` on the CPU `c`, for the interrupt `x` -/
def lrWrite (cfg : VgicConfig) (s : Vgic) (c : Nat) (x : VirqId) (k : Nat) (val : GicLr) : Vgic :=
  if k < 16 then
    { s with
      ichLr := Function.update s.ichLr c (Function.update (s.ichLr c) k val)
      clash := s.clash || ((s.ichLr c k).state != .invalid && (s.ichLr c k).virq != cfg.intid x) }
  else s

/-- `vgic_get_lr` -/
def vgicGetLr (cfg : VgicConfig) (s : Vgic) (c : Nat) : Nat :=
  ((List.range cfg.lrNr).find? fun k => (s.ichLr c k).state = .invalid).getD LR_INDEX_INVALID

/-- `vgic_write_lr` -/
def vgicWriteLr (cfg : VgicConfig) (s : Vgic) (c : Nat) (x : VirqId) : Vgic :=
  s.lrWrite cfg c x (s.irqs x).lr
    { virq := cfg.intid x
      pirq := cfg.hwintid x % 2 ^ 13
      priority := (s.irqs x).priority
      group := (s.irqs x).group
      hw := cfg.hwintid x != 0
      state := .pending }

/-- `vgic_update_lr` -/
def vgicUpdateLr (cfg : VgicConfig) (s : Vgic) (c : Nat) (x : VirqId) : Vgic :=
  let val := s.lrRead c (s.irqs x).lr
  if val.state = .active then s.lrWrite cfg c x (s.irqs x).lr { val with state := .actPend } else s

/-! ## from the list registers -/

/-- the entry of an interrupt that left its list register -/
def freeVirq (s : Vgic) (x : VirqId) : Vgic :=
  (s.setIrq x fun r => { r with pending := false, active := false, lr := 0, migrate := false }).unlinkLr x

/-- one round of the loop of `hv_sync_irq_from_lrs` -/
def syncVirq (cfg : VgicConfig) (c : Nat) (s : Vgic) (x : VirqId) : Vgic :=
  if (s.irqs x).lr = LR_INDEX_INVALID then s
  else
    let val := s.lrRead c (s.irqs x).lr
    if cfg.intid x ≠ val.virq then s.freeVirq x
    else
      match val.state with
      | .invalid => s.freeVirq x
      | .pending => s.setIrq x fun r => { r with pending := true, active := false }
      | .active => s.setIrq x fun r => { r with pending := false, active := true }
      | .actPend => s.setIrq x fun r => { r with pending := true, active := true }

/-- `hv_sync_irq_from_lrs` -/
def syncIrqFromLrs (cfg : VgicConfig) (s : Vgic) (c : Nat) (v : VcpuId) : Vgic :=
  (s.lrHead v).foldl (syncVirq cfg c) s

/-! ## to the list registers -/

/-- `move_to_lr_lst` -/
def moveToLrLst (s : Vgic) (v : VcpuId) (x : VirqId) : Vgic :=
  let s := (s.unlinkPd x).setIrq x fun r => { r with pdq := false }
  if (s.irqs x).lrNode then s
  else
    { s.setIrq x fun r => { r with lrNode := true } with
      lrHead := Function.update s.lrHead v (s.lrHead v ++ [x]) }

/-- one round of the loop of `hv_flush_queued_virqs`, and whether the loop goes on -/
def flushVirq (cfg : VgicConfig) (c : Nat) (v : VcpuId) (s : Vgic) (x : VirqId) : Vgic × Bool :=
  if cfg.hwintid x ≠ 0 then
    let s := s.setIrq x fun r => { r with lr := s.vgicGetLr cfg c }
    if (s.irqs x).lr = LR_INDEX_INVALID then (s, false)
    else ((s.vgicWriteLr cfg c x).moveToLrLst v x, true)
  else if (s.irqs x).lr = LR_INDEX_INVALID then
    let s := s.setIrq x fun r => { r with lr := s.vgicGetLr cfg c }
    if (s.irqs x).lr = LR_INDEX_INVALID then (s, false)
    else
      (((s.vgicWriteLr cfg c x).setIrq x fun r => { r with pending := true }).moveToLrLst v x, true)
  else
    match (s.lrRead c (s.irqs x).lr).state with
    | .active =>
      (((s.vgicUpdateLr cfg c x).setIrq x fun r => { r with active := true, pending := true }).moveToLrLst
        v x, true)
    | .invalid =>
      (((s.vgicWriteLr cfg c x).setIrq x fun r => { r with pending := true }).moveToLrLst v x, true)
    | _ => (s, true)

def flushLoop (cfg : VgicConfig) (c : Nat) (v : VcpuId) : List VirqId → Vgic → Vgic
  | [], s => s
  | x :: xs, s =>
    let r := s.flushVirq cfg c v x
    if r.2 then flushLoop cfg c v xs r.1 else r.1

/-- `hv_flush_queued_virqs` -/
def flushQueuedVirqs (cfg : VgicConfig) (s : Vgic) (c : Nat) (v : VcpuId) : Vgic := flushLoop cfg c v (s.pdHead v) s

/-! ## queueing -/

/-- `insert_into_pdlist` -/
def insertIntoPdlist (s : Vgic) (x : VirqId) (v : VcpuId) : Vgic :=
  if (s.irqs x).pdNode then s
  else
    let before := fun t => (s.irqs t).priority < (s.irqs x).priority
    let s := s.setIrq x fun r => { r with pdq := true }
    if s.pdHead v = [] then s.linkPd x v [x]
    else if ∃ t ∈ s.pdHead v, before t then
      s.linkPd x v (Links.insertBefore (before ·) x (s.pdHead v))
    else s

/-- `hv_vcpu_resume`, of the vCPU's status -/
def vcpuResume (s : Vgic) (v : VcpuId) : Vgic :=
  if s.status v = .blocked then { s with status := Function.update s.status v .ready } else s

/-- `hv_vcpu_inject_virq` -/
def vcpuInjectVirq (s : Vgic) (c : Nat) (v : VcpuId) (x : VirqId) : Vgic × Int :=
  if ¬ (s.irqs x).enable then (s, -1)
  else if s.status v = .shutdown then (s, -1)
  else if (s.irqs x).pdq then (s, 0)
  else
    let s := s.insertIntoPdlist x v
    if s.status v = .running ∧ s.vcpu c ≠ some v then
      match s.cpuId v with
      | none => (s, -1)
      | some _ => (s, 0)
    else if s.event v then (s.vcpuResume v, 0)
    else (s, 0)

/-- `get_virq` -/
def getVirq (cfg : VgicConfig) (vm : Nat) (vcpu : Option VcpuId) (virq : Nat) : Option VirqId :=
  if virq < GIC_BASE_SPI then vcpu.map fun v => .priv v virq
  else if virq - GIC_BASE_SPI < cfg.spiNum then some (.spi vm (virq - GIC_BASE_SPI))
  else none

/-- the vCPU `hv_inject_virq` injects into -/
def injectTarget (s : Vgic) (vcpu : Option VcpuId) (x : VirqId) : Option VcpuId :=
  vcpu.orElse fun _ => (s.irqs x).vcpu

/-- `hv_inject_virq`; `none` is a null vCPU read -/
def injectVirq (cfg : VgicConfig) (s : Vgic) (c vm : Nat) (vcpu : Option VcpuId) (virq : Nat) : Option (Vgic × Int) :=
  match getVirq cfg vm vcpu virq with
  | none => some (s, ERR_INVALID_ARGS)
  | some x => (s.injectTarget vcpu x).map fun v => s.vcpuInjectVirq c v x

/-! ## the guest's writes to the distributor -/

/-- `hv_virq_cpending` -/
def virqCpending (s : Vgic) (x : VirqId) : Vgic :=
  let s := s.setIrq x fun r => { r with pdq := false }
  if (s.irqs x).pdNode then
    (s.unlinkPd x).setIrq x fun r => { r with pending := false, active := false }
  else s

/-- `hv_virq_enable` -/
def virqEnable (s : Vgic) (x : VirqId) (enable : Bool) : Vgic :=
  let s := s.setIrq x fun r => { r with enable := enable }
  if enable then s else s.virqCpending x

/-- the entry of `ipriority_write`, whose `pribits` stays 0 -/
def ipriority (value : Nat) : Nat := (value &&& ((1 <<< 0) - 1) <<< (8 - 0)) % 2 ^ 8

/-- the test of `hv_migrate_virq` for an interrupt that is queued and in no list register -/
def Requeues (cfg : VgicConfig) (s : Vgic) (x : VirqId) : Prop :=
  cfg.hwintid x ≠ 0 ∧ (s.irqs x).migrate = false ∧ (s.irqs x).pdNode = true ∧
    (s.irqs x).lrNode = false ∧ (s.irqs x).pdq = true

instance (cfg : VgicConfig) (s : Vgic) (x : VirqId) : Decidable (s.Requeues cfg x) :=
  inferInstanceAs (Decidable (_ ∧ _))

/-- the interrupt taken out of its queue and given to `n`, before `hv_migrate_virq` injects it again -/
def requeued (s : Vgic) (n : VcpuId) (x : VirqId) : Vgic :=
  ((s.setIrq x fun r => { r with vcpu := some n }).unlinkPd x).setIrq x fun r => { r with pdq := false }

/-- `hv_migrate_virq` -/
def migrateVirq (cfg : VgicConfig) (s : Vgic) (c : Nat) (n : VcpuId) (x : VirqId) : Vgic × Int :=
  if cfg.hwintid x = 0 then (s.setIrq x fun r => { r with vcpu := some n }, 0)
  else if (s.irqs x).migrate then (s, -1)
  else if ¬ (s.irqs x).pdNode then (s.setIrq x fun r => { r with vcpu := some n }, 0)
  else if (s.irqs x).lrNode then
    (s.setIrq x fun r => { r with vcpu := some n, migrate := true }, 0)
  else if (s.irqs x).pdq then (((s.requeued n x).vcpuInjectVirq c n x).1, 0)
  else (s, 0)

/-- `mpidr_to_cpu_id` -/
def mpidrToCpuId (mpidr : Nat) : Nat := (mpidr &&& 0xff) &&& ((1 <<< 4) - 1) ||| ((mpidr >>> 8) &&& 0xff) <<< 4

/-- the vCPU an `irouter_write` names; `1 << 31` is a negative `int` -/
def irouterVcpu (cfg : VgicConfig) (vm value : Nat) : Option VcpuId :=
  let id := if value >>> 31 ≠ 0 then 0 else mpidrToCpuId value
  if id < cfg.vcpuNum vm then some ⟨vm, id⟩ else none

/-- the interrupt and the new vCPU, when an `irouter_write` by `v` calls `hv_migrate_virq` -/
def irouterMoves (cfg : VgicConfig) (s : Vgic) (v : VcpuId) (index value : Nat) : Option (VirqId × VcpuId) :=
  match getVirq cfg v.vm (some v) index, irouterVcpu cfg v.vm value with
  | some x, some n => if (s.irqs x).iroute = value ∨ (s.irqs x).vcpu = some n then none else some (x, n)
  | _, _ => none

/-- `irouter_write` by `v`; `none` is the lock of a null vCPU taken -/
def irouterWrite (cfg : VgicConfig) (s : Vgic) (c : Nat) (v : VcpuId) (index value : Nat) : Option Vgic :=
  match s.irouterMoves cfg v index value with
  | none => some s
  | some (x, n) =>
    if (s.irqs x).vcpu = none ∧ cfg.hwintid x ≠ 0 then none
    else
      let r := s.migrateVirq cfg c n x
      some (if r.2 < 0 then r.1.setIrq x fun t => { t with iroute := value } else r.1)

/-! ## vCPUs -/

/-- `hv_vcpu_irq_cleanup` on the CPU `c` -/
def irqCleanup (cfg : VgicConfig) (s : Vgic) (c : Nat) (v : VcpuId) : Vgic :=
  { s with
    irqs := fun x =>
      { s.irqs x with
        lrNode := if x ∈ s.lrHead v then false else (s.irqs x).lrNode
        pdNode := if x ∈ s.pdHead v then false else (s.irqs x).pdNode }
    lrHead := Function.update s.lrHead v []
    pdHead := Function.update s.pdHead v []
    ichLr := Function.update s.ichLr c fun k => if k < cfg.lrNr then GicLr.zero else s.ichLr c k }

/-- `hv_vcpu_poweroff` on the CPU `c`, when that is the vCPU's own -/
def vcpuPoweroff (cfg : VgicConfig) (s : Vgic) (c : Nat) (v : VcpuId) : Vgic :=
  if s.status v = .shutdown ∨ s.status v = .created then s
  else
    let s := s.irqCleanup cfg c v
    { s with status := Function.update s.status v .shutdown }

/-- `hv_vcpu_irq_save` on the CPU `c` -/
def irqSave (cfg : VgicConfig) (s : Vgic) (c : Nat) (v : VcpuId) : Vgic :=
  { s with lr := Function.update s.lr v fun k => if k < cfg.lrNr then s.ichLr c k else s.lr v k }

/-- `hv_vcpu_irq_restore` on the CPU `c` -/
def irqRestore (cfg : VgicConfig) (s : Vgic) (c : Nat) (v : VcpuId) : Vgic :=
  { s with ichLr := Function.update s.ichLr c fun k => if k < cfg.lrNr then s.lr v k else s.ichLr c k }

/-- `vcpu_switch_to` on the CPU `c` -/
def vcpuSwitchTo (cfg : VgicConfig) (s : Vgic) (c : Nat) (v : VcpuId) : Vgic :=
  if s.vcpu c = some v then s
  else
    let s := match s.vcpu c with
      | none => s
      | some w => s.irqSave cfg c w
    let s := s.irqRestore cfg c v
    { s with vcpu := Function.update s.vcpu c (some v) }

/-- `hv_vcpu_irq_init` -/
def irqInit (s : Vgic) (v : VcpuId) : Vgic :=
  { s with
    irqs := fun x =>
      match x with
      | .priv w i => if w = v then initVirq else s.irqs (.priv w i)
      | .spi vm i => s.irqs (.spi vm i)
    pdHead := Function.update s.pdHead v []
    lrHead := Function.update s.lrHead v []
    lr := Function.update s.lr v fun _ => GicLr.zero }

/-! ## the list registers of a vCPU -/

/-- a CPU whose registers hold those of `v` -/
def loadedOn (cfg : VgicConfig) (s : Vgic) (v : VcpuId) : Option Nat :=
  (List.range cfg.cpus).find? fun c => s.vcpu c = some v

/-- the list registers of `v`: the CPU's, or else the saved ones -/
def regs (cfg : VgicConfig) (s : Vgic) (v : VcpuId) (k : Nat) : GicLr :=
  match s.loadedOn cfg v with
  | some c => s.ichLr c k
  | none => s.lr v k

end Vgic

end LkHv
