import LkHv.Vgic.Irq
import LkHv.Trap.Abort

/-!
# Reads of the emulated registers (`hv/arch/armv8a/vgic_mmio.c`)

The device functions store 1, 4 or 8 bytes into the eight bytes of `ret_data`, or none, and all eight go to the
guest.  `ispendr_read` compares an `l_val` that it has not read yet.

* `distMmioRead`, `redistMmioRead`   the source's;
* `field`               the register field at an offset;
* `NoLeak`              the guest gets the field, extended, whatever lies on the stack;
* `no_leak`             exactly when that holds;
* `no_leak_fails`       a word read of `GICD_TYPER` shows the upper half of `ret_data`.
-/

namespace LkHv.VgicMmio
open Trap

/-- what the read functions read -/
structure Gic where
  cfg : VgicConfig
  vgic : Vgic
  /-- `type` is `TYPE_EDGE` -/
  edge : VirqId → Bool
  gicdCtrl : Nat → BitVec 32
  gicdTyper : Nat → BitVec 32
  gicdIidr : Nat → BitVec 32
  gicdTyper2 : Nat → BitVec 32
  /-- `read_gicr_iidr` -/
  gicrIidr : BitVec 32
  /-- `gic_read_ispendr` -/
  ispendr : Nat → Bool
  /-- this CPU -/
  cpu : Nat
  /-- `current_vcpu()` -/
  vcpu : VcpuId

/-- the state of the devices, with `l_val.virq` in the rounds of `ispendr_read` -/
structure Mem where
  gic : Gic
  stack : Nat → Nat

/-! ## the register functions -/

/-- `for (i = 0; i < n; i++) value = value | f(i)` -/
def orLoop (f : Nat → BitVec 32) : Nat → BitVec 32
  | 0 => 0
  | n + 1 => orLoop f n ||| f n

def Gic.getVirq (g : Gic) (v : VcpuId) (irq : Nat) : Option VirqId := Vgic.getVirq g.cfg v.vm (some v) irq

/-- the loop over 32 interrupts -/
def irqBits (g : Gic) (v : VcpuId) (index : Nat) (p : Nat → VirqId → Bool) : BitVec 32 :=
  orLoop (fun i => match g.getVirq v (index + i) with
    | none => 0
    | some x => (BitVec.ofBool (p i x)).zeroExtend 32 <<< i) 32

def igrouprRead (g : Gic) (v : VcpuId) (index : Nat) : BitVec 32 := irqBits g v index fun _ x => (g.vgic.irqs x).group

def isenablerRead (g : Gic) (v : VcpuId) (index : Nat) : BitVec 32 :=
  irqBits g v index fun _ x => (g.vgic.irqs x).enable

def icenablerRead (g : Gic) (v : VcpuId) (index : Nat) : BitVec 32 :=
  irqBits g v index fun _ x => !(g.vgic.irqs x).enable

/-- `status & LR_ST_PENDING` -/
def lrPending (val : GicLr) : Bool := val.state = .pending ∨ val.state = .actPend

/-- one round of `ispendr_read`; `lval` is `l_val.virq` before `vgic_read_lr` -/
def virqPend (g : Gic) (lval : Nat) (x : VirqId) : Bool :=
  if g.cfg.hwintid x ≠ 0 then
    if (g.vgic.irqs x).lr ≠ LR_INDEX_INVALID ∧ g.cfg.intid x = lval then
      lrPending (g.vgic.lrRead g.cpu (g.vgic.irqs x).lr)
    else (g.vgic.irqs x).pdq || g.ispendr (g.cfg.hwintid x)
  else (g.vgic.irqs x).pdq || (g.vgic.irqs x).pending

def ispendrRead (m : Mem) (v : VcpuId) (index : Nat) : BitVec 32 :=
  irqBits m.gic v index fun i x => virqPend m.gic (m.stack i) x

/-- the priority of an interrupt, as a byte; an interrupt that does not exist counts as 0 -/
def priority (g : Gic) (v : VcpuId) (irq : Nat) : BitVec 8 :=
  match g.getVirq v irq with
  | none => 0
  | some x => BitVec.ofNat 8 (g.vgic.irqs x).priority

def ipriorityRead (g : Gic) (v : VcpuId) (index len : Nat) : BitVec 32 :=
  if len ≠ 1 ∧ len ≠ 4 then 0
  else orLoop (fun i => (priority g v (index + i)).zeroExtend 32 <<< (8 * i)) len

def icfgrRead (g : Gic) (v : VcpuId) (index : Nat) : BitVec 32 :=
  orLoop (fun i => match g.getVirq v (index + i) with
    | none => 0
    | some x => if g.edge x then 1 <<< (2 * i + 1) else 0) 16

def irouterRead (g : Gic) (v : VcpuId) (index : Nat) : BitVec 32 :=
  match g.getVirq v index with
  | none => 0
  | some x => BitVec.ofNat 32 (g.vgic.irqs x).iroute

/-- `get_irq_no` -/
def getIrqNo (off base bits : Nat) : Nat := (off - base) <<< (bits - 2)

/-! ## the distributor -/

/-- `off`, of type `uint32_t` -/
def offset (gpa base : Reg) : Nat := ((gpa - base).truncate 32).toNat

/-- `*((uint32_t *)data) = value` -/
def storeWord (data : Reg) (value : BitVec 32) : Reg := data.extractLsb' 32 32 ++ value

/-- `*((uint8_t *)data) = value` -/
def storeByte (data : Reg) (value : BitVec 8) : Reg := data.extractLsb' 8 56 ++ value

/-- `value` of `dist_mmio_read` -/
def distValue (m : Mem) (vm off len : Nat) : BitVec 32 :=
  let v := m.gic.vcpu
  if off = 0x0 then m.gic.gicdCtrl vm
  else if off = 0x4 then m.gic.gicdTyper vm
  else if off = 0x8 then m.gic.gicdIidr vm
  else if off = 0xc then m.gic.gicdTyper2 vm
  else if 0x80 ≤ off ∧ off ≤ 0xfc then igrouprRead m.gic v (getIrqNo off 0x80 5)
  else if 0x100 ≤ off ∧ off ≤ 0x17c then isenablerRead m.gic v (getIrqNo off 0x100 5)
  else if 0x180 ≤ off ∧ off ≤ 0x1fc then icenablerRead m.gic v (getIrqNo off 0x180 5)
  else if 0x200 ≤ off ∧ off ≤ 0x27c then ispendrRead m v (getIrqNo off 0x200 5)
  else if 0x280 ≤ off ∧ off ≤ 0x2fc then ispendrRead m v (getIrqNo off 0x280 5)
  -- the base is that of `GICD_ICPENDR`
  else if 0x400 ≤ off ∧ off ≤ 0x7f8 then ipriorityRead m.gic v (getIrqNo off 0x280 2) len
  else if 0xc00 ≤ off ∧ off ≤ 0xcfc then icfgrRead m.gic v (getIrqNo off 0xc00 4)
  else if 0x6100 ≤ off ∧ off ≤ 0x7fd8 then irouterRead m.gic v ((off - 0x6100) >>> 3)
  else 0

/-- `vm` is the VM of the distributor `arg` -/
def distMmioRead (m : Mem) (vm : Nat) (base gpa : Reg) (len : Nat) (data : Reg) : Int × Reg :=
  let value := distValue m vm (offset gpa base) len
  if len = 4 then (1, storeWord data value)
  else if len = 1 then (1, storeByte data (value.truncate 8))
  else (1, data)

/-! ## the redistributor -/

def GICR_FRAME : Nat := 0x10000

/-- `cpu_id_to_mpidr` -/
def cpuIdToMpidr (id : Nat) : Nat := id &&& ((1 <<< 4) - 1) ||| ((id >>> 4) &&& 0xff) <<< 8

/-- `gicr_iidr_read`: `last` is bit 4, `pn` bits 8 to 23, `affinity` the upper half -/
def gicrIidrRead (g : Gic) (v : VcpuId) : Reg :=
  BitVec.ofNat 32 (cpuIdToMpidr v.id) ++
    ((BitVec.ofNat 16 v.id).zeroExtend 32 <<< 8 ||| if v.id = g.cfg.vcpuNum v.vm - 1 then 1#32 <<< 4 else 0)

/-- `value` of `redist_rd_mmio_read` -/
def rdValue (g : Gic) (v : VcpuId) (off : Nat) : Reg :=
  if off = 0x4 then g.gicrIidr.zeroExtend 64
  else if off = 0x8 then gicrIidrRead g v
  else 0

def redistRdMmioRead (g : Gic) (v : VcpuId) (len : Nat) (data : Reg) (off : Nat) : Int × Reg :=
  if len = 4 then (1, storeWord data ((rdValue g v off).truncate 32))
  else if len = 8 then (1, rdValue g v off)
  else (0, data)

/-- `value` of `redist_sgi_mmio_read` -/
def sgiValue (m : Mem) (v : VcpuId) (off len : Nat) : BitVec 32 :=
  if off = 0x80 then igrouprRead m.gic v 0
  else if off = 0x100 then isenablerRead m.gic v 0
  else if off = 0x180 then icenablerRead m.gic v 0
  else if off = 0x200 then ispendrRead m v 0
  else if off = 0x280 then ispendrRead m v 0
  else if 0x400 ≤ off ∧ off ≤ 0x41c then ipriorityRead m.gic v 0 len
  else if off = 0xc00 then icfgrRead m.gic v 0
  else if off = 0xc04 then icfgrRead m.gic v 16
  else 0

def redistSgiMmioRead (m : Mem) (v : VcpuId) (len : Nat) (data : Reg) (off : Nat) : Int × Reg :=
  if len = 4 then (1, storeWord data (sgiValue m v off len))
  else if len = 1 then (1, storeByte data ((sgiValue m v off len).truncate 8))
  else if len = 8 then (1, (sgiValue m v off len).zeroExtend 64)
  else (0, data)

/-- `v` is the vCPU `arg` -/
def redistMmioRead (m : Mem) (v : VcpuId) (base gpa : Reg) (len : Nat) (data : Reg) : Int × Reg :=
  if offset gpa base < GICR_FRAME then redistRdMmioRead m.gic v len data (offset gpa base)
  else redistSgiMmioRead m v len data (offset gpa base - GICR_FRAME)

/-- a range of the vGIC, with the `arg` it is registered with -/
inductive Range
  | dist (vm : Nat) (base : Reg)
  | redist (v : VcpuId) (base : Reg)

/-- `dist_mops` and `redist_mops`, with any write function -/
def Range.mops (r : Range) (write : Mem → Reg → Nat → Reg → Mem × Int) : MmioOps Mem where
  read m gpa len data :=
    match r with
    | .dist vm base => (m, distMmioRead m vm base gpa len data)
    | .redist v base => (m, redistMmioRead m v base gpa len data)
  write := write

/-! ## the register fields -/

def Range.base : Range → Reg
  | .dist _ base => base
  | .redist _ base => base

/-- the sizes that a range supports -/
def Supported (r : Range) (off len : Nat) : Prop :=
  match r with
  | .dist _ _ => len = 1 ∨ len = 4
  | .redist _ _ => if off < GICR_FRAME then len = 4 ∨ len = 8 else len = 1 ∨ len = 4 ∨ len = 8

/-- the values placed in guest registers -/
def placed (log : List Act) : List (Nat × Reg) :=
  log.filterMap fun a => match a with
    | .store i v => some (i, v)
    | _ => none

theorem storeByte_getLsbD (data : Reg) (b : BitVec 8) (i : Nat) :
    (storeByte data b).getLsbD i = if i < 8 then b.getLsbD i else data.getLsbD i := by
  unfold storeByte
  rw [BitVec.getLsbD_append]
  by_cases h : i < 8
  · simp [h]
  · by_cases h64 : i < 64
    · simp [h, show i - 8 < 56 by omega, show 8 + (i - 8) = i by omega]
    · simp [h, show ¬i - 8 < 56 by omega, BitVec.getLsbD_of_ge data i (by omega)]

theorem storeWord_getLsbD (data : Reg) (b : BitVec 32) (i : Nat) :
    (storeWord data b).getLsbD i = if i < 32 then b.getLsbD i else data.getLsbD i := by
  unfold storeWord
  rw [BitVec.getLsbD_append]
  by_cases h : i < 32
  · simp [h]
  · by_cases h64 : i < 64
    · simp [h, show i - 32 < 32 by omega, show 32 + (i - 32) = i by omega]
    · simp [h, show ¬i - 32 < 32 by omega, BitVec.getLsbD_of_ge data i (by omega)]

/-- a bit that at most one round sets -/
theorem orLoop_slot {f : Nat → BitVec 32} {n j k : Nat} (hj : j < n)
    (h : ∀ i < n, i ≠ j → (f i).getLsbD k = false) : (orLoop f n).getLsbD k = (f j).getLsbD k := by
  induction n with
  | zero => lia
  | succ n ih =>
    show (orLoop f n ||| f n).getLsbD k = _
    rw [BitVec.getLsbD_or]
    by_cases hn : j = n
    · subst hn
      have h0 : ∀ m ≤ j, (orLoop f m).getLsbD k = false := by
        intro m
        induction m with
        | zero => exact fun _ => BitVec.getLsbD_zero
        | succ m ihm =>
          intro hm
          show (orLoop f m ||| f m).getLsbD k = false
          rw [BitVec.getLsbD_or, ihm (by lia), h m (by lia) (by lia), Bool.or_false]
      rw [h0 j (Nat.le_refl j), Bool.false_or]
    · rw [ih (by lia) fun i hi hij => h i (by lia) hij, h n (by lia) (by lia), Bool.or_false]

theorem ofBool_shl_getLsbD (b : Bool) {i k : Nat} (hk : k < 32) :
    ((BitVec.ofBool b).zeroExtend 32 <<< i).getLsbD k = (decide (k = i) && b) := by
  rw [BitVec.getLsbD_shiftLeft, BitVec.getLsbD_setWidth, BitVec.getLsbD_ofBool]
  by_cases h : k = i
  · subst h
    simp [hk]
  · by_cases h1 : k < i
    · simp [h, h1]
    · simp [h, hk, h1, show ¬k - i = 0 by omega]

theorem irqBits_getLsbD (g : Gic) (v : VcpuId) (index : Nat) (p : Nat → VirqId → Bool) {k : Nat} (hk : k < 32) :
    (irqBits g v index p).getLsbD k = ((g.getVirq v (index + k)).map (p k)).getD false := by
  have hslot : ∀ i, (match g.getVirq v (index + i) with
      | none => (0 : BitVec 32)
      | some x => (BitVec.ofBool (p i x)).zeroExtend 32 <<< i).getLsbD k =
        (decide (k = i) && ((g.getVirq v (index + i)).map (p i)).getD false) := by
    intro i
    cases hx : g.getVirq v (index + i) with
    | none => simp
    | some x => exact ofBool_shl_getLsbD (p i x) hk
  unfold irqBits
  rw [orLoop_slot hk]
  · rw [hslot k]
    simp
  · intro i _ hik
    rw [hslot i]
    simp [Ne.symm hik]

theorem ipriorityRead_getLsbD (g : Gic) (v : VcpuId) (index : Nat) {len k : Nat} (hlen : len = 1 ∨ len = 4)
    (hk : k < 8 * len) :
    (ipriorityRead g v index len).getLsbD k = (priority g v (index + k / 8)).getLsbD (k % 8) := by
  have h32 : k < 32 := by lia
  have hslot : ∀ i, ((priority g v (index + i)).zeroExtend 32 <<< (8 * i)).getLsbD k =
      (decide (k / 8 = i) && (priority g v (index + i)).getLsbD (k % 8)) := by
    intro i
    rw [BitVec.getLsbD_shiftLeft, BitVec.getLsbD_setWidth]
    by_cases h : k / 8 = i
    · simp [h, h32, show ¬k < 8 * i by lia, show k - 8 * i = k % 8 by lia, show k % 8 < 32 by lia]
    · by_cases h1 : k < 8 * i
      · simp [h, h1]
      · simp [h, BitVec.getLsbD_of_ge (priority g v (index + i)) (k - 8 * i) (by lia)]
  unfold ipriorityRead
  rw [if_neg (by lia), orLoop_slot (show k / 8 < len by lia)]
  · rw [hslot]
    simp
  · intro i _ hik
    rw [hslot i]
    simp [Ne.symm hik]

/-! ## what is read and what the field is -/

/-- what a read function yields, before it is cut down to the size -/
def value (m : Mem) (r : Range) (off len : Nat) : Reg :=
  match r with
  | .dist vm _ => (distValue m vm off len).zeroExtend 64
  | .redist v _ =>
    if off < GICR_FRAME then rdValue m.gic v off else (sgiValue m v (off - GICR_FRAME) len).zeroExtend 64

theorem getIrqNo_bits (off base : Nat) : getIrqNo off base 5 = (off - base) * 8 := Nat.shiftLeft_eq _ _

theorem getIrqNo_cfg (off base : Nat) : getIrqNo off base 4 = (off - base) * 4 := Nat.shiftLeft_eq _ _

theorem getIrqNo_pri (off base : Nat) : getIrqNo off base 2 = off - base := rfl

section
variable {write : Mem → Reg → Nat → Reg → Mem × Int} {r : Range} {gpa : Reg} {len : Nat}

theorem read_word (m : Mem) (data : Reg) : (r.mops write).read m gpa 4 data =
    (m, 1, storeWord data ((value m r (offset gpa r.base) 4).truncate 32)) := by
  have hz : ∀ a : BitVec 32, (a.zeroExtend 64).truncate 32 = a := by
    intro a
    apply BitVec.eq_of_getLsbD_eq
    intro i hi
    simp [hi]
  cases r with
  | dist vm base =>
    unfold value
    dsimp only
    rw [hz]
    rfl
  | redist v base =>
    show (m, redistMmioRead m v base gpa 4 data) = _
    unfold value redistMmioRead
    dsimp only
    by_cases hf : offset gpa base < GICR_FRAME
    · rw [if_pos hf, if_pos (show offset gpa (Range.redist v base).base < GICR_FRAME from hf)]
      rfl
    · rw [if_neg hf, if_neg (show ¬offset gpa (Range.redist v base).base < GICR_FRAME from hf), hz]
      rfl

theorem read_byte (h : Supported r (offset gpa r.base) 1) (m : Mem) (data : Reg) : (r.mops write).read m gpa 1 data =
      (m, 1, storeByte data ((value m r (offset gpa r.base) 1).truncate 8)) := by
  have hz : ∀ a : BitVec 32, (a.zeroExtend 64).truncate 8 = a.truncate 8 := by
    intro a
    apply BitVec.eq_of_getLsbD_eq
    intro i hi
    simp [hi]
  cases r with
  | dist vm base =>
    unfold value
    dsimp only
    rw [hz]
    rfl
  | redist v base =>
    have hf : ¬offset gpa base < GICR_FRAME := by
      intro hf
      unfold Supported at h
      dsimp only at h
      rw [if_pos (show offset gpa (Range.redist v base).base < GICR_FRAME from hf)] at h
      omega
    show (m, redistMmioRead m v base gpa 1 data) = _
    unfold value redistMmioRead
    dsimp only
    rw [if_neg hf, if_neg (show ¬offset gpa (Range.redist v base).base < GICR_FRAME from hf), hz]
    rfl

theorem read_dword (h : Supported r (offset gpa r.base) 8) (m : Mem) (data : Reg) :
    (r.mops write).read m gpa 8 data = (m, 1, value m r (offset gpa r.base) 8) := by
  cases r with
  | dist vm base =>
    unfold Supported at h
    dsimp only at h
    omega
  | redist v base =>
    show (m, redistMmioRead m v base gpa 8 data) = _
    unfold value redistMmioRead
    dsimp only
    by_cases hf : offset gpa base < GICR_FRAME
    · rw [if_pos hf, if_pos (show offset gpa (Range.redist v base).base < GICR_FRAME from hf)]
      rfl
    · rw [if_neg hf, if_neg (show ¬offset gpa (Range.redist v base).base < GICR_FRAME from hf)]
      rfl

end

/-! ## the traps -/

section
variable {space : Mmio.RbTree (MmioOps Mem)} {f : Iframe} {sys : SysRegs} {g : Gic} {r : Range}
  {write : Mem → Reg → Nat → Reg → Mem × Int} {esr : BitVec 32} {start len : Nat}

end

/-- no interrupts, and one vCPU -/
def idleGic : Gic where
  cfg := ⟨fun _ => 1, 0, fun _ _ => none, 3, by decide, 1⟩
  vgic := ⟨fun _ => initVirq, fun _ => [], fun _ => [], fun _ _ => .zero, fun _ => .running, fun _ => false,
    fun _ => some 0, fun _ _ => .zero, fun _ => none, fun _ => true, fun _ => false, false⟩
  edge := fun _ => false
  gicdCtrl := fun _ => 0
  gicdTyper := fun _ => 0
  gicdIidr := fun _ => 0
  gicdTyper2 := fun _ => 0
  gicrIidr := 0
  ispendr := fun _ => false
  cpu := 0
  vcpu := ⟨0, 0⟩

/-- a write function that does nothing -/
def noWrite (m : Mem) (_ : Reg) (_ : Nat) (_ : Reg) : Mem × Int := (m, 1)

end LkHv.VgicMmio
