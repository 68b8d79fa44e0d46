import LkHv.Vgic.Write

/-!
# Register round trips (`hv/arch/armv8a/vgic_mmio.c`)

A write and a read at the same offset, for the banks that hold configuration.

* `Bank`, `bankAt`, `Bank.fieldAt`   where the field of an interrupt lies;
* `RoundTrip`            the read gives what was written, to the fields of interrupts that exist, and the
                         interrupts outside of the access are as before;
* `write_bank`, `value_bank`   the cases of the device functions, bank by bank;
* `RoundTripWhen`        the condition;
* `register_round_trip`  exactly then the round trip holds;
* `register_round_trip_fails`   not so for a word of `GICD_IPRIORITYR`.
-/

namespace LkHv.VgicMmio
open Trap

/-! ## the banks -/

inductive Bank
  | igroupr
  | isenabler
  | icenabler
  | ipriorityr
  | icfgr
  | irouter

/-- the bank and the place in it -/
def bankAt (r : Range) (off : Nat) : Option (Bank × Nat) :=
  match r with
  | .dist _ _ =>
    if 0x80 ≤ off ∧ off ≤ 0xfc then some (.igroupr, off - 0x80)
    else if 0x100 ≤ off ∧ off ≤ 0x17c then some (.isenabler, off - 0x100)
    else if 0x180 ≤ off ∧ off ≤ 0x1fc then some (.icenabler, off - 0x180)
    else if 0x400 ≤ off ∧ off ≤ 0x7f8 then some (.ipriorityr, off - 0x400)
    else if 0xc00 ≤ off ∧ off ≤ 0xcfc then some (.icfgr, off - 0xc00)
    else if 0x6100 ≤ off ∧ off ≤ 0x7fd8 then some (.irouter, off - 0x6100)
    else none
  | .redist _ _ =>
    if off = GICR_FRAME + 0x80 then some (.igroupr, 0)
    else if off = GICR_FRAME + 0x100 then some (.isenabler, 0)
    else if off = GICR_FRAME + 0x180 then some (.icenabler, 0)
    else if GICR_FRAME + 0x400 ≤ off ∧ off ≤ GICR_FRAME + 0x41c then some (.ipriorityr, off - GICR_FRAME - 0x400)
    else if off = GICR_FRAME + 0xc00 then some (.icfgr, 0)
    else if off = GICR_FRAME + 0xc04 then some (.icfgr, 4)
    else none

/-- a bit of the configuration -/
inductive Field
  | group
  | enable
  | priority (k : Nat)
  | edge
  | route (k : Nat)

def Conf.bit (c : Conf) : Field → Bool
  | .group => c.group
  | .enable => c.enable
  | .priority k => c.priority.testBit k
  | .edge => c.edge
  | .route k => c.iroute.testBit k

/-- the number of the interrupt and the field at bit `b` of an access at the place `o` -/
def Bank.fieldAt : Bank → Nat → Nat → Option (Nat × Field)
  | .igroupr, o, b => some (8 * o + b, .group)
  | .isenabler, o, b => some (8 * o + b, .enable)
  | .icenabler, o, b => some (8 * o + b, .enable)
  | .ipriorityr, o, b => some (o + b / 8, .priority (b % 8))
  | .icfgr, o, b => if b % 2 = 1 then some (4 * o + b / 2, .edge) else none
  | .irouter, o, b => some (32 + (o + b / 8) / 8, .route (8 * ((o + b / 8) % 8) + b % 8))

/-- what a bit written does to the field: the enable pair sets and clears -/
def Bank.newBit : Bank → Bool → Bool → Bool
  | .isenabler, old, bit => old || bit
  | .icenabler, old, bit => old && !bit
  | _, _, bit => bit

/-- the vCPU whose private interrupts the range has -/
def Range.vcpu (r : Range) (g : Gic) : VcpuId :=
  match r with
  | .dist _ _ => g.vcpu
  | .redist v _ => v

/-- the interrupts with fields in a range; a redistributor has private ones only -/
def virqAt (g : Gic) (r : Range) (irq : Nat) : Option VirqId :=
  match r with
  | .dist _ _ => g.getVirq g.vcpu irq
  | .redist v _ => if irq < 32 then g.getVirq v irq else none

def expectedBit (g : Gic) (r : Range) (k : Bank) (o : Nat) (data : Reg) (b : Nat) : Bool :=
  match k.fieldAt o b with
  | none => false
  | some (irq, f) => ((virqAt g r irq).map fun x => k.newBit ((conf g x).bit f) (data.getLsbD b)).getD false

/-- an interrupt with a field in the access -/
def Covered (g : Gic) (r : Range) (k : Bank) (o len : Nat) (x : VirqId) : Prop :=
  ∃ b < 8 * len, ∃ irq f, k.fieldAt o b = some (irq, f) ∧ virqAt g r irq = some x

/-- a write of `data` and a read, at the place `o` of the bank `k` -/
def RoundTrip (g : Gic) (r : Range) (k : Bank) (o : Nat) (gpa : Reg) (len : Nat) (data : Reg) : Prop :=
  ∃ g', r.write g gpa len data = some g' ∧ (∀ stack junk, ∀ b < 8 * len,
      ((r.mops noWrite).read ⟨g', stack⟩ gpa len junk).2.2.getLsbD b = expectedBit g r k o data b) ∧
    ∀ x, ¬ Covered g r k o len x → conf g' x = conf g x

/-- The condition.  The bitmaps and `GICD_ICFGR`: interrupts beyond an access of one byte have the fields that the
register of the guest has for them.  `GICD_ICENABLER`: there are no interrupts in the access.  `GICD_IPRIORITYR`:
those 384 further on have the priorities written; `GICR_IPRIORITYR`: only zeros are written, over the first
interrupts.  `GICD_IROUTER`: the interrupt 32 before has the route written and is not touched. -/
def RoundTripWhen (g : Gic) (r : Range) (k : Bank) (o len : Nat) (data : Reg) : Prop :=
  let v := r.vcpu g
  match k with
  | .igroupr => ∀ i < 32, 8 * len ≤ i → ∀ x, g.getVirq v (8 * o + i) = some x → (conf g x).group = data.getLsbD i
  | .isenabler => ∀ i < 32, 8 * len ≤ i → ∀ x, g.getVirq v (8 * o + i) = some x →
      data.getLsbD i = true → (conf g x).enable = true
  | .icenabler => (∀ i < 32, i < 8 * len → g.getVirq v (8 * o + i) = none) ∧
      ∀ i < 32, 8 * len ≤ i → ∀ x, g.getVirq v (8 * o + i) = some x →
        data.getLsbD i = true → (conf g x).enable = false
  | .ipriorityr =>
    match r with
    | .dist _ _ => ∀ j < len, priority g v (o + 0x180 + j) =
        if (g.getVirq v (o + j)).isSome then data.extractLsb' (8 * j) 8 else 0
    | .redist v _ => (∀ j < len, o + j < 32 → data.extractLsb' (8 * j) 8 = 0) ∧
        ∀ j < len, j < o → (conf g (.priv v j)).priority = 0
  | .icfgr => (∀ i < 16, 4 * len ≤ i → ∀ x, g.getVirq v (4 * o + i) = some x →
        (conf g x).edge = data.getLsbD (2 * i + 1)) ∧
      ∀ i < 4 * len, 16 ≤ i → (virqAt g r (4 * o + i)).isSome → data.getLsbD (2 * i + 1) = false
  | .irouter => (∀ x w, g.vgic.irouterMoves g.cfg v (o / 8) data.toNat = some (x, w) →
        g.cfg.hwintid x = 0 ∨ (g.vgic.irqs x).vcpu ≠ none ∧ (g.vgic.irqs x).migrate = false) ∧
      ∀ b < 8 * len, ((g.getVirq v (o / 8)).map fun x => (conf g x).iroute.testBit b).getD false =
        ((g.getVirq v (32 + (o + b / 8) / 8)).map fun _ => data.getLsbD b).getD false

/-! ## the device functions, bank by bank -/

/-- what is written, in the bank `k` -/
def bankWrite (g : Gic) (r : Range) (k : Bank) (o len : Nat) (data : Reg) : Option Gic :=
  let v := r.vcpu g
  match k with
  | .igroupr => some (igrouprWrite g v (8 * o) (data.truncate 32))
  | .isenabler => some (isenablerWrite g v (8 * o) (data.truncate 32))
  | .icenabler => some (icenablerWrite g v (8 * o) (data.truncate 32))
  | .ipriorityr =>
    match r with
    | .dist _ _ => some (ipriorityWrite v g o (data.truncate 32) len)
    | .redist _ _ => some (ipriorityWrite v g 0 (data.truncate 32) len)
  | .icfgr => some (icfgrWrite g v (4 * o) (data.truncate 32))
  | .irouter => irouterWrite g v (o / 8) data

/-- what is read -/
def bankRead (g : Gic) (r : Range) (k : Bank) (o len : Nat) : BitVec 32 :=
  let v := r.vcpu g
  match k with
  | .igroupr => igrouprRead g v (8 * o)
  | .isenabler => isenablerRead g v (8 * o)
  | .icenabler => icenablerRead g v (8 * o)
  | .ipriorityr =>
    match r with
    | .dist _ _ => ipriorityRead g v (o + 0x180) len
    | .redist _ _ => ipriorityRead g v 0 len
  | .icfgr => icfgrRead g v (4 * o)
  | .irouter => irouterRead g v (o / 8)

section
variable {g g' : Gic} {r : Range} {k : Bank} {o off len : Nat} {gpa data : Reg}

theorem write_bank (hk : bankAt r off = some (k, o)) (hoff : offset gpa r.base = off) :
    r.write g gpa len data = bankWrite g r k o len data := by
  cases r with
  | dist vm base =>
    have hoff' : offset gpa base = off := hoff
    show distMmioWrite g vm base gpa len data = _
    unfold distMmioWrite
    rw [hoff']
    unfold bankAt at hk
    dsimp only at hk ⊢
    split at hk
    · cases hk
      rw [if_neg (by lia), if_pos ‹_›, getIrqNo_bits, Nat.mul_comm]
      rfl
    split at hk
    · cases hk
      rw [if_neg (by lia), if_neg (by lia), if_pos ‹_›, getIrqNo_bits, Nat.mul_comm]
      rfl
    split at hk
    · cases hk
      rw [if_neg (by lia), if_neg (by lia), if_neg (by lia), if_pos ‹_›, getIrqNo_bits, Nat.mul_comm]
      rfl
    split at hk
    · cases hk
      rw [if_neg (by lia), if_neg (by lia), if_neg (by lia), if_neg (by lia), if_neg (by lia),
        if_neg (by lia), if_pos ‹_›, getIrqNo_pri]
      rfl
    split at hk
    · cases hk
      rw [if_neg (by lia), if_neg (by lia), if_neg (by lia), if_neg (by lia), if_neg (by lia),
        if_neg (by lia), if_neg (by lia), if_pos ‹_›, getIrqNo_cfg, Nat.mul_comm]
      rfl
    split at hk
    · cases hk
      rw [if_neg (by lia), if_neg (by lia), if_neg (by lia), if_neg (by lia), if_neg (by lia),
        if_neg (by lia), if_neg (by lia), if_neg (by lia), if_pos ‹_›, Nat.shiftRight_eq_div_pow]
      rfl
    · cases hk
  | redist v base =>
    have hoff' : offset gpa base = off := hoff
    show some (redistMmioWrite g v base gpa len data) = _
    unfold redistMmioWrite redistSgiMmioWrite
    rw [hoff']
    unfold bankAt at hk
    dsimp only at hk ⊢
    have hf : GICR_FRAME = 0x10000 := rfl
    split at hk
    · cases hk
      rw [if_neg (by lia), if_pos (by lia)]
      rfl
    split at hk
    · cases hk
      rw [if_neg (by lia), if_neg (by lia), if_pos (by lia)]
      rfl
    split at hk
    · cases hk
      rw [if_neg (by lia), if_neg (by lia), if_neg (by lia), if_pos (by lia)]
      rfl
    split at hk
    · cases hk
      rw [if_neg (by lia), if_neg (by lia), if_neg (by lia), if_neg (by lia), if_neg (by lia),
        if_neg (by lia), if_pos (by lia)]
      rfl
    split at hk
    · cases hk
      rw [if_neg (by lia), if_neg (by lia), if_neg (by lia), if_neg (by lia), if_neg (by lia),
        if_neg (by lia), if_neg (by lia), if_pos (by lia)]
      rfl
    split at hk
    · cases hk
      rw [if_neg (by lia), if_neg (by lia), if_neg (by lia), if_neg (by lia), if_neg (by lia),
        if_neg (by lia), if_neg (by lia), if_neg (by lia), if_pos (by lia)]
      rfl
    · cases hk

theorem value_bank (hk : bankAt r off = some (k, o)) (m : Mem) :
    value m r off len = (bankRead m.gic r k o len).zeroExtend 64 := by
  cases r with
  | dist vm base =>
    unfold value distValue
    unfold bankAt at hk
    dsimp only at hk ⊢
    split at hk
    · cases hk
      rw [if_neg (by omega), if_neg (by omega), if_neg (by omega), if_neg (by omega), if_pos ‹_›, getIrqNo_bits,
        Nat.mul_comm]
      rfl
    split at hk
    · cases hk
      rw [if_neg (by omega), if_neg (by omega), if_neg (by omega), if_neg (by omega), if_neg (by omega),
        if_pos ‹_›, getIrqNo_bits, Nat.mul_comm]
      rfl
    split at hk
    · cases hk
      rw [if_neg (by omega), if_neg (by omega), if_neg (by omega), if_neg (by omega), if_neg (by omega),
        if_neg (by omega), if_pos ‹_›, getIrqNo_bits, Nat.mul_comm]
      rfl
    split at hk
    · cases hk
      rw [if_neg (by omega), if_neg (by omega), if_neg (by omega), if_neg (by omega), if_neg (by omega),
        if_neg (by omega), if_neg (by omega), if_neg (by omega), if_neg (by omega), if_pos ‹_›, getIrqNo_pri,
        show off - 0x280 = off - 0x400 + 0x180 by omega]
      rfl
    split at hk
    · cases hk
      rw [if_neg (by omega), if_neg (by omega), if_neg (by omega), if_neg (by omega), if_neg (by omega),
        if_neg (by omega), if_neg (by omega), if_neg (by omega), if_neg (by omega), if_neg (by omega),
        if_pos ‹_›, getIrqNo_cfg, Nat.mul_comm]
      rfl
    split at hk
    · cases hk
      rw [if_neg (by omega), if_neg (by omega), if_neg (by omega), if_neg (by omega), if_neg (by omega),
        if_neg (by omega), if_neg (by omega), if_neg (by omega), if_neg (by omega), if_neg (by omega),
        if_neg (by omega), if_pos ‹_›, Nat.shiftRight_eq_div_pow]
      rfl
    · cases hk
  | redist v base =>
    have hf : GICR_FRAME = 0x10000 := rfl
    unfold value sgiValue
    unfold bankAt at hk
    dsimp only at hk ⊢
    split at hk
    · cases hk
      rw [if_neg (by omega), if_pos (by omega)]
      rfl
    split at hk
    · cases hk
      rw [if_neg (by omega), if_neg (by omega), if_pos (by omega)]
      rfl
    split at hk
    · cases hk
      rw [if_neg (by omega), if_neg (by omega), if_neg (by omega), if_pos (by omega)]
      rfl
    split at hk
    · cases hk
      rw [if_neg (by omega), if_neg (by omega), if_neg (by omega), if_neg (by omega), if_neg (by omega),
        if_neg (by omega), if_pos (by omega)]
      rfl
    split at hk
    · cases hk
      rw [if_neg (by omega), if_neg (by omega), if_neg (by omega), if_neg (by omega), if_neg (by omega),
        if_neg (by omega), if_neg (by omega), if_pos (by omega)]
      rfl
    split at hk
    · cases hk
      rw [if_neg (by omega), if_neg (by omega), if_neg (by omega), if_neg (by omega), if_neg (by omega),
        if_neg (by omega), if_neg (by omega), if_neg (by omega), if_pos (by omega)]
      rfl
    · cases hk

/-- the sizes that a bank supports -/
theorem supported_bank (hk : bankAt r off = some (k, o)) (hs : Supported r off len) :
    len = 1 ∨ len = 4 ∨ len = 8 ∧ ∃ v base, r = .redist v base := by
  cases r with
  | dist vm base =>
    exact (show len = 1 ∨ len = 4 from hs).imp_right .inl
  | redist v base =>
    unfold Supported at hs
    dsimp only at hs
    rw [if_neg] at hs
    · exact hs.imp_right (Or.imp_right fun h => ⟨h, v, base, rfl⟩)
    · intro hlt
      have hf : GICR_FRAME = 0x10000 := rfl
      unfold bankAt at hk
      dsimp only at hk
      rw [if_neg (by lia), if_neg (by lia), if_neg (by lia), if_neg (by lia), if_neg (by lia), if_neg (by lia)] at hk
      cases hk

/-- the bits that are read -/
theorem read_bit (hk : bankAt r off = some (k, o)) (hoff : offset gpa r.base = off) (hs : Supported r off len)
    (m : Mem) (junk : Reg) {b : Nat} (hb : b < 8 * len) :
    ((r.mops noWrite).read m gpa len junk).2.2.getLsbD b = (bankRead m.gic r k o len).getLsbD b := by
  have hv := @value_bank r k o off len hk m
  have hlen := supported_bank hk hs
  have h64 : b < 64 := by lia
  have hbit : (value m r off len).getLsbD b = (bankRead m.gic r k o len).getLsbD b := by
    rw [hv, BitVec.getLsbD_setWidth, decide_eq_true h64, Bool.true_and]
  rcases hlen with rfl | rfl | ⟨rfl, -⟩
  · rw [read_byte (by rw [hoff]; exact hs), hoff]
    dsimp only
    rw [storeByte_getLsbD, if_pos hb, BitVec.getLsbD_setWidth, decide_eq_true hb, Bool.true_and, hbit]
  · rw [read_word, hoff]
    dsimp only
    rw [storeWord_getLsbD, if_pos hb, BitVec.getLsbD_setWidth, decide_eq_true hb, Bool.true_and, hbit]
  · rw [read_dword (by rw [hoff]; exact hs), hoff]
    exact hbit

/-- a round trip whose write is known -/
theorem roundTrip_iff (g' : Gic) (hk : bankAt r off = some (k, o)) (hoff : offset gpa r.base = off)
    (hs : Supported r off len) (hw : bankWrite g r k o len data = some g') : RoundTrip g r k o gpa len data ↔
      (∀ b < 8 * len, (bankRead g' r k o len).getLsbD b = expectedBit g r k o data b) ∧
        ∀ x, ¬ Covered g r k o len x → conf g' x = conf g x := by
  have hw' := (@write_bank g r k o off len gpa data hk hoff).trans hw
  constructor
  · rintro ⟨g1, h1, h2, h3⟩
    cases hw'.symm.trans h1
    exact ⟨fun b hb => (read_bit hk hoff hs ⟨g', fun _ => 0⟩ 0 hb).symm.trans (h2 _ _ b hb), h3⟩
  · rintro ⟨h2, h3⟩
    exact ⟨g', hw', fun stack junk b hb => (read_bit hk hoff hs ⟨g', stack⟩ junk hb).trans (h2 b hb), h3⟩

/-! ## where interrupts are -/

/-- the place of a bank of a redistributor -/
theorem redist_place {v : VcpuId} {base : Reg} (hk : bankAt (.redist v base) off = some (k, o)) :
    match k with
    | .igroupr | .isenabler | .icenabler => o = 0
    | .ipriorityr => o ≤ 0x1c
    | .icfgr => o = 0 ∨ o = 4
    | .irouter => False := by
  have hf : GICR_FRAME = 0x10000 := rfl
  unfold bankAt at hk
  dsimp only at hk
  split at hk
  · cases hk
    rfl
  split at hk
  · cases hk
    rfl
  split at hk
  · cases hk
    rfl
  split at hk
  · cases hk
    show off - GICR_FRAME - 0x400 ≤ 0x1c
    omega
  split at hk
  · cases hk
    exact .inl rfl
  split at hk
  · cases hk
    exact .inr rfl
  · cases hk

theorem virqAt_some {irq : Nat} {x : VirqId} (h : virqAt g r irq = some x) : g.getVirq (r.vcpu g) irq = some x := by
  cases r with
  | dist vm base => exact h
  | redist v base =>
    unfold virqAt at h
    dsimp only at h
    split at h
    · exact h
    · cases h

theorem virqAt_eq {irq : Nat} (h : ∀ v base, r = .redist v base → irq < 32) :
    virqAt g r irq = g.getVirq (r.vcpu g) irq := by
  cases r with
  | dist vm base => rfl
  | redist v base => exact if_pos (h v base rfl)

/-- the interrupts outside of an access are as before if and only if the loop changes none of them -/
theorem Changed.outside_iff {v : VcpuId} {index n : Nat} {h : Nat → Conf → Conf} (hc : Changed g g' v index n h)
    (C : VirqId → Prop) : (∀ x, ¬ C x → conf g' x = conf g x) ↔
      ∀ i < n, ∀ x, g.getVirq v (index + i) = some x → ¬ C x → h i (conf g x) = conf g x := by
  constructor
  · intro ha i hi x hx hn
    rw [← hc.inside i hi x hx]
    exact ha x hn
  · intro ha x hn
    by_cases hx : ∃ i < n, g.getVirq v (index + i) = some x
    · obtain ⟨i, hi, hx⟩ := hx
      rw [hc.inside i hi x hx]
      exact ha i hi x hx hn
    · exact hc.outside x fun i hi hx' => hx ⟨i, hi, hx'⟩

/-! ## the bitmaps -/

/-- the interrupts of a bitmap, which has the field `f` for each -/
theorem bitmap_covered {f : Field} (hf : ∀ o b, k.fieldAt o b = some (8 * o + b, f)) (h0 : ∀ v base, r = .redist v base → o = 0)
    {i : Nat} (hi : i < 32) {x : VirqId} (hx : g.getVirq (r.vcpu g) (8 * o + i) = some x) : Covered g r k o len x ↔ i < 8 * len := by
  constructor
  · rintro ⟨b, hb, irq, f', hb', hx'⟩
    rw [hf] at hb'
    obtain ⟨rfl, -⟩ := Prod.mk.inj (Option.some.inj hb')
    have := getVirq_inj (virqAt_some hx') hx
    lia
  · intro h
    refine ⟨i, h, _, f, hf o i, ?_⟩
    rw [virqAt_eq fun v base e => by rw [h0 v base e]; lia]
    exact hx

/-- the bits expected of a bitmap -/
theorem bitmap_expected {f : Field} (hf : ∀ o b, k.fieldAt o b = some (8 * o + b, f))
    (h0 : ∀ v base, r = .redist v base → o = 0) {b : Nat} (hb : b < 32) :
    expectedBit g r k o data b = ((g.getVirq (r.vcpu g) (8 * o + b)).map fun x =>
      k.newBit ((conf g x).bit f) (data.getLsbD b)).getD false := by
  unfold expectedBit
  rw [hf]
  dsimp only
  rw [virqAt_eq fun v base e => by rw [h0 v base e]; omega]

/-- beyond its 32 bits a bitmap is read as 0, and has no interrupts -/
theorem bitmap_high (hs : len = 1 ∨ len = 4 ∨ len = 8 ∧ ∃ v base, r = .redist v base) {f : Field}
    (hf : ∀ o b, k.fieldAt o b = some (8 * o + b, f)) (h0 : ∀ v base, r = .redist v base → o = 0) {b : Nat}
    (hb : b < 8 * len) (h32 : ¬ b < 32) (a : BitVec 32) : a.getLsbD b = expectedBit g r k o data b := by
  obtain ⟨-, v, base, rfl⟩ : len = 8 ∧ ∃ v base, r = .redist v base := by
    rcases hs with h | h | h
    · omega
    · omega
    · exact h
  rw [BitVec.getLsbD_of_ge a b (by omega)]
  unfold expectedBit
  rw [hf]
  show false = Option.getD (Option.map _ (if 8 * o + b < 32 then _ else none)) false
  rw [if_neg (by omega)]
  rfl

/-- **A bitmap**, written with `h` and read through `rd`: nothing beyond the access may change, and `rd` has to give
the new bits back. -/
theorem bitmap_iff (rd : Bool → Bool) (hk : bankAt r off = some (k, o)) (hoff : offset gpa r.base = off) (hs : Supported r off len)
    {f : Field} {h : Nat → Conf → Conf} (hf : ∀ o b, k.fieldAt o b = some (8 * o + b, f))
    (h0 : ∀ v base, r = .redist v base → o = 0) (hw : bankWrite g r k o len data = some g')
    (hc : Changed g g' (r.vcpu g) (8 * o) 32 h)
    (hr : bankRead g' r k o len = irqBits g' (r.vcpu g') (8 * o) fun _ x => rd ((conf g' x).bit f))
    (hbit : ∀ i < 32, ∀ c, (h i c).bit f = k.newBit (c.bit f) (data.getLsbD i)) : RoundTrip g r k o gpa len data ↔
      (∀ i < 32, i < 8 * len → ∀ x, g.getVirq (r.vcpu g) (8 * o + i) = some x →
        rd (k.newBit ((conf g x).bit f) (data.getLsbD i)) = k.newBit ((conf g x).bit f) (data.getLsbD i)) ∧
      ∀ i < 32, 8 * len ≤ i → ∀ x, g.getVirq (r.vcpu g) (8 * o + i) = some x → h i (conf g x) = conf g x := by
  have hvcpu : r.vcpu g' = r.vcpu g := by
    cases r with
    | dist vm base => exact hc.vcpu
    | redist v base => rfl
  rw [roundTrip_iff _ hk hoff hs hw, hc.outside_iff]
  refine and_congr ⟨fun ha i hi hlt x hx => ?_, fun ha b hb => ?_⟩
    ⟨fun ha i hi hlt x hx => ?_, fun ha i hi x hx hn => ?_⟩
  · have h1 := ha i hlt
    rw [hr, irqBits_getLsbD _ _ _ _ hi, hvcpu, getVirq_congr hc.cfg, bitmap_expected hf h0 hi, hx,
      Option.map_some, Option.map_some, hc.inside i hi x hx, hbit i hi] at h1
    exact h1
  · by_cases hi : b < 32
    · rw [hr, irqBits_getLsbD _ _ _ _ hi, hvcpu, getVirq_congr hc.cfg, bitmap_expected hf h0 hi]
      cases hx : g.getVirq (r.vcpu g) (8 * o + b) with
      | none => rfl
      | some x =>
        rw [Option.map_some, Option.map_some, hc.inside b hi x hx, hbit b hi]
        exact ha b hi hb x hx
    · exact bitmap_high (supported_bank hk hs) hf h0 hb hi _
  · exact ha i hi x hx fun hcov => by
      have := (bitmap_covered hf h0 hi hx).mp hcov
      lia
  · refine ha i hi ?_ x hx
    by_contra hlt
    exact hn ((bitmap_covered hf h0 hi hx).mpr (by lia))

theorem truncate_bit {i : Nat} (hi : i < 32) : (data.truncate 32).getLsbD i = data.getLsbD i := by
  rw [BitVec.getLsbD_setWidth, decide_eq_true hi, Bool.true_and]

theorem igroupr_iff (hk : bankAt r off = some (.igroupr, o)) (hoff : offset gpa r.base = off)
    (hs : Supported r off len) : RoundTrip g r .igroupr o gpa len data ↔ RoundTripWhen g r .igroupr o len data := by
  have h0 : ∀ v base, r = .redist v base → o = 0 := fun v base e => redist_place (e ▸ hk)
  rw [bitmap_iff id hk hoff hs (fun _ _ => rfl) h0 rfl (igrouprWrite_conf g _ _ _) rfl
    fun i hi c => truncate_bit hi]
  refine ⟨fun h i hi hlt x hx => ?_, fun h => ⟨fun _ _ _ _ _ => rfl, fun i hi hlt x hx => ?_⟩⟩
  · rw [← truncate_bit hi]
    exact (congrArg Conf.group (h.2 i hi hlt x hx)).symm
  · rw [truncate_bit hi, ← h i hi hlt x hx]

theorem isenabler_iff (hk : bankAt r off = some (.isenabler, o)) (hoff : offset gpa r.base = off)
    (hs : Supported r off len) :
    RoundTrip g r .isenabler o gpa len data ↔ RoundTripWhen g r .isenabler o len data := by
  have h0 : ∀ v base, r = .redist v base → o = 0 := fun v base e => redist_place (e ▸ hk)
  rw [bitmap_iff id hk hoff hs (fun _ _ => rfl) h0 rfl (isenablerWrite_conf g _ _ _) rfl
    fun i hi c => by rw [truncate_bit hi]; rfl]
  refine ⟨fun h i hi hlt x hx hb => ?_, fun h => ⟨fun _ _ _ _ _ => rfl, fun i hi hlt x hx => ?_⟩⟩
  · have h1 := (congrArg Conf.enable (h.2 i hi hlt x hx)).symm
    dsimp only at h1
    rw [truncate_bit hi, hb, Bool.or_true] at h1
    exact h1
  · rw [truncate_bit hi]
    have he : ((conf g x).enable || data.getLsbD i) = (conf g x).enable := by
      cases hb : data.getLsbD i with
      | false => rw [Bool.or_false]
      | true => rw [Bool.or_true, h i hi hlt x hx hb]
    rw [he]

theorem icenabler_iff (hk : bankAt r off = some (.icenabler, o)) (hoff : offset gpa r.base = off)
    (hs : Supported r off len) :
    RoundTrip g r .icenabler o gpa len data ↔ RoundTripWhen g r .icenabler o len data := by
  have h0 : ∀ v base, r = .redist v base → o = 0 := fun v base e => redist_place (e ▸ hk)
  rw [bitmap_iff not hk hoff hs (fun _ _ => rfl) h0 rfl (icenablerWrite_conf g _ _ _) rfl
    fun i hi c => by rw [truncate_bit hi]; rfl]
  refine and_congr ⟨fun h i hi hlt => ?_, fun h i hi hlt x hx => ?_⟩
    ⟨fun h i hi hlt x hx hb => ?_, fun h i hi hlt x hx => ?_⟩
  · cases hx : g.getVirq (r.vcpu g) (8 * o + i) with
    | none => rfl
    | some x => exact absurd (h i hi hlt x hx) (Bool.not_ne_self _)
  · rw [h i hi hlt] at hx
    cases hx
  · have h1 := (congrArg Conf.enable (h i hi hlt x hx)).symm
    dsimp only at h1
    rw [truncate_bit hi, hb, Bool.not_true, Bool.and_false] at h1
    exact h1
  · rw [truncate_bit hi]
    have he : ((conf g x).enable && !data.getLsbD i) = (conf g x).enable := by
      cases hb : data.getLsbD i with
      | false => rw [Bool.not_false, Bool.and_true]
      | true => rw [Bool.not_true, Bool.and_false, h i hi hlt x hx hb]
    rw [he]

/-! ## `GICD_ICFGR` -/

theorem icfgrRead_getLsbD (g : Gic) (v : VcpuId) (index : Nat) {b : Nat} (hb : b < 32) :
    (icfgrRead g v index).getLsbD b =
      (decide (b % 2 = 1) && ((g.getVirq v (index + b / 2)).map g.edge).getD false) := by
  have hone : ∀ i, (BitVec.ofNat 32 (1 <<< (2 * i + 1))).getLsbD b = decide (2 * i + 1 = b) := by
    intro i
    rw [BitVec.getLsbD_ofNat, decide_eq_true hb, Bool.true_and, Nat.one_shiftLeft, Nat.testBit_two_pow]
  have hbit : ∀ i x, (if g.edge x then BitVec.ofNat 32 (1 <<< (2 * i + 1)) else 0).getLsbD b =
      (decide (2 * i + 1 = b) && g.edge x) := by
    intro i x
    cases g.edge x with
    | false => rw [if_neg Bool.false_ne_true, Bool.and_false]; exact BitVec.getLsbD_zero
    | true => rw [if_pos rfl, hone, Bool.and_true]
  unfold icfgrRead
  rw [orLoop_slot (show b / 2 < 16 by lia)]
  · cases hx : g.getVirq v (index + b / 2) with
    | none => exact BitVec.getLsbD_zero.trans (Bool.and_false _).symm
    | some x =>
      refine (hbit (b / 2) x).trans ?_
      rw [Option.map_some, Option.getD_some]
      congr 1
      exact decide_eq_decide.mpr (by lia)
  · intro i _ hne
    cases hx : g.getVirq v (index + i) with
    | none => exact BitVec.getLsbD_zero
    | some x =>
      refine (hbit i x).trans ?_
      rw [decide_eq_false (by lia), Bool.false_and]

theorem icfgr_iff (hk : bankAt r off = some (.icfgr, o)) (hoff : offset gpa r.base = off) (hs : Supported r off len) :
    RoundTrip g r .icfgr o gpa len data ↔ RoundTripWhen g r .icfgr o len data := by
  have hc := icfgrWrite_conf g (r.vcpu g) (4 * o) (data.truncate 32)
  have hlen := supported_bank hk hs
  have hplace : ∀ v base, r = .redist v base → o = 0 ∨ o = 4 := fun v base e => redist_place (e ▸ hk)
  have hvcpu : r.vcpu (icfgrWrite g (r.vcpu g) (4 * o) (data.truncate 32)) = r.vcpu g := by
    cases r with
    | dist vm base => exact hc.vcpu
    | redist v base => rfl
  have hat : ∀ i < 16, virqAt g r (4 * o + i) = g.getVirq (r.vcpu g) (4 * o + i) := fun i hi =>
    virqAt_eq fun v base e => by rcases hplace v base e with rfl | rfl <;> lia
  have hcov : ∀ i < 16, ∀ x, g.getVirq (r.vcpu g) (4 * o + i) = some x →
      (Covered g r .icfgr o len x ↔ i < 4 * len) := by
    intro i hi x hx
    constructor
    · rintro ⟨b, hb, irq, f, hf, hx'⟩
      unfold Bank.fieldAt at hf
      dsimp only at hf
      split at hf
      · obtain ⟨rfl, -⟩ := Prod.mk.inj (Option.some.inj hf)
        have := getVirq_inj (virqAt_some hx') hx
        lia
      · cases hf
    · intro h
      refine ⟨2 * i + 1, by lia, 4 * o + i, .edge, ?_, (hat i hi).trans hx⟩
      show (if (2 * i + 1) % 2 = 1 then some (4 * o + (2 * i + 1) / 2, Field.edge) else none) = _
      rw [if_pos (by lia), show (2 * i + 1) / 2 = i by lia]
  rw [roundTrip_iff _ hk hoff hs rfl, hc.outside_iff, and_comm]
  refine and_congr ⟨fun h i hi hlt x hx => ?_, fun h i hi x hx hn => ?_⟩ ⟨fun h i hi h16 hx => ?_, fun h b hb => ?_⟩
  · have h1 := congrArg Conf.edge (h i hi x hx fun hc => by have := (hcov i hi x hx).mp hc; lia)
    dsimp only at h1
    rw [truncate_bit (by lia)] at h1
    exact h1.symm
  · rw [truncate_bit (by lia), ← h i hi (by
      by_contra hlt
      exact hn ((hcov i hi x hx).mpr (by lia))) x hx]
  · have h1 := h (2 * i + 1) (by lia)
    obtain ⟨x, hx⟩ := Option.isSome_iff_exists.mp hx
    rw [BitVec.getLsbD_of_ge _ _ (by lia)] at h1
    unfold expectedBit Bank.fieldAt at h1
    dsimp only at h1
    rw [if_pos (by lia), show (2 * i + 1) / 2 = i by lia] at h1
    dsimp only at h1
    rw [hx] at h1
    exact h1.symm
  · by_cases h2 : b % 2 = 1
    · have he : expectedBit g r .icfgr o data b =
          ((virqAt g r (4 * o + b / 2)).map fun _ => data.getLsbD b).getD false := by
        unfold expectedBit Bank.fieldAt
        dsimp only
        rw [if_pos h2]
        rfl
      rw [he]
      by_cases hlt : b < 32
      · show (icfgrRead _ _ (4 * o)).getLsbD b = _
        rw [icfgrRead_getLsbD _ _ _ hlt, decide_eq_true h2, Bool.true_and, hat _ (by lia), hvcpu,
          getVirq_congr hc.cfg]
        cases hx : g.getVirq (r.vcpu g) (4 * o + b / 2) with
        | none => rfl
        | some x =>
          have h1 := congrArg Conf.edge (hc.inside (b / 2) (by lia) x hx)
          dsimp only at h1
          rw [truncate_bit (by lia), show 2 * (b / 2) + 1 = b by lia] at h1
          exact h1
      · rw [BitVec.getLsbD_of_ge _ _ (by lia)]
        cases hx : virqAt g r (4 * o + b / 2) with
        | none => rfl
        | some x =>
          have h1 := h (b / 2) (by lia) (by lia) (by rw [hx]; rfl)
          rw [show 2 * (b / 2) + 1 = b by lia] at h1
          exact h1.symm
    · have he : expectedBit g r .icfgr o data b = false := by
        unfold expectedBit Bank.fieldAt
        dsimp only
        rw [if_neg h2]
      rw [he]
      by_cases hlt : b < 32
      · show (icfgrRead _ _ (4 * o)).getLsbD b = _
        rw [icfgrRead_getLsbD _ _ _ hlt, decide_eq_false h2, Bool.false_and]
      · rw [BitVec.getLsbD_of_ge _ _ (by lia)]

/-! ## `GICD_IPRIORITYR` -/

/-- the bits expected of priorities -/
theorem ipriority_expected (b : Nat) : expectedBit g r .ipriorityr o data b =
    ((virqAt g r (o + b / 8)).map fun _ => data.getLsbD b).getD false := rfl

theorem ipriority_covered {j : Nat} (hj : j < len) {x : VirqId} (hx : virqAt g r (o + j) = some x) :
    Covered g r .ipriorityr o len x := by
  refine ⟨8 * j, by lia, o + j, .priority 0, ?_, hx⟩
  show some (o + 8 * j / 8, Field.priority (8 * j % 8)) = _
  rw [show 8 * j / 8 = j by lia, show 8 * j % 8 = 0 by lia]

theorem extract_bit {j b : Nat} (hb : b < 8) : (data.extractLsb' (8 * j) 8).getLsbD b = data.getLsbD (8 * j + b) := by
  rw [BitVec.getLsbD_extractLsb', decide_eq_true hb, Bool.true_and]

theorem ipriorityr_dist_iff {vm : Nat} {base : Reg} (hk : bankAt (.dist vm base) off = some (.ipriorityr, o))
    (hoff : offset gpa base = off) (hs : Supported (.dist vm base) off len) :
    RoundTrip g (.dist vm base) .ipriorityr o gpa len data ↔
      RoundTripWhen g (.dist vm base) .ipriorityr o len data := by
  have hc := ipriorityWrite_conf g g.vcpu o (data.truncate 32) len
  have hlen : len = 1 ∨ len = 4 := hs
  rw [roundTrip_iff (ipriorityWrite g.vcpu g o (data.truncate 32) len) hk hoff hs rfl]
  -- what is read are other interrupts, with their old priorities
  have hold : ∀ j < len, priority (ipriorityWrite g.vcpu g o (data.truncate 32) len)
      (Range.vcpu (.dist vm base) (ipriorityWrite g.vcpu g o (data.truncate 32) len)) (o + 0x180 + j) =
        priority g g.vcpu (o + 0x180 + j) := by
    intro j hj
    rw [show Range.vcpu (.dist vm base) (ipriorityWrite g.vcpu g o (data.truncate 32) len) = g.vcpu from hc.vcpu]
    unfold priority
    rw [getVirq_congr hc.cfg]
    cases hx : g.getVirq g.vcpu (o + 0x180 + j) with
    | none => rfl
    | some x =>
      have h1 := hc.outside x fun i hi hx' => by
        have := getVirq_inj hx' hx
        lia
      show BitVec.ofNat 8 (conf _ x).priority = _
      rw [h1]
      rfl
  have hbits : (∀ b < 8 * len, (bankRead (ipriorityWrite g.vcpu g o (data.truncate 32) len) (.dist vm base)
      .ipriorityr o len).getLsbD b = expectedBit g (.dist vm base) .ipriorityr o data b) ↔
        RoundTripWhen g (.dist vm base) .ipriorityr o len data := by
    have hbit : ∀ b < 8 * len, (bankRead (ipriorityWrite g.vcpu g o (data.truncate 32) len) (.dist vm base)
        .ipriorityr o len).getLsbD b = (priority g g.vcpu (o + 0x180 + b / 8)).getLsbD (b % 8) := by
      intro b hb
      show (ipriorityRead _ _ (o + 0x180) len).getLsbD b = _
      rw [ipriorityRead_getLsbD _ _ _ hlen hb, hold _ (by lia)]
    have hexp : ∀ j, ∀ b < 8, expectedBit g (.dist vm base) .ipriorityr o data (8 * j + b) =
        (if (g.getVirq g.vcpu (o + j)).isSome then data.extractLsb' (8 * j) 8 else 0).getLsbD b := by
      intro j b hb
      rw [ipriority_expected, show (8 * j + b) / 8 = j by lia]
      show Option.getD (Option.map _ (g.getVirq g.vcpu (o + j))) false = _
      cases hx : g.getVirq g.vcpu (o + j) with
      | none =>
        rw [if_neg (by simp)]
        exact BitVec.getLsbD_zero.symm
      | some x =>
        rw [if_pos (show (some x).isSome = true from rfl), extract_bit hb]
        rfl
    constructor
    · intro h j hj
      apply BitVec.eq_of_getLsbD_eq
      intro b hb
      have h1 := h (8 * j + b) (by lia)
      rw [hbit _ (by lia), hexp j b hb, show (8 * j + b) / 8 = j by lia, show (8 * j + b) % 8 = b by lia] at h1
      exact h1
    · intro h b hb
      have h1 := hexp (b / 8) (b % 8) (by lia)
      rw [show 8 * (b / 8) + b % 8 = b by lia] at h1
      rw [hbit b hb, h1]
      exact congrArg (BitVec.getLsbD · (b % 8)) (h (b / 8) (by lia))
  rw [hbits]
  refine ⟨fun h => h.1, fun h => ⟨h, fun x hn => hc.outside x fun i hi hx => hn (ipriority_covered hi hx)⟩⟩

theorem ipriorityr_redist_iff {v : VcpuId} {base : Reg} (hk : bankAt (.redist v base) off = some (.ipriorityr, o))
    (hoff : offset gpa base = off) (hs : Supported (.redist v base) off len) :
    RoundTrip g (.redist v base) .ipriorityr o gpa len data ↔
      RoundTripWhen g (.redist v base) .ipriorityr o len data := by
  have hc := ipriorityWrite_conf g v 0 (data.truncate 32) len
  have ho : o ≤ 0x1c := redist_place hk
  have hlen := supported_bank hk hs
  have hpriv : ∀ j < 32, g.getVirq v j = some (.priv v j) := fun j hj => if_pos hj
  have hzero : ∀ b < 8 * len, (bankRead (ipriorityWrite v g 0 (data.truncate 32) len) (.redist v base)
      .ipriorityr o len).getLsbD b = false := by
    intro b hb
    show (ipriorityRead _ v 0 len).getLsbD b = false
    by_cases h8 : len = 1 ∨ len = 4
    · rw [ipriorityRead_getLsbD _ _ _ h8 hb]
      have hx : g.getVirq v (0 + b / 8) = some (.priv v (0 + b / 8)) := hpriv _ (by lia)
      have h1 := congrArg Conf.priority (hc.inside (b / 8) (by lia) _ hx)
      unfold priority
      rw [getVirq_congr hc.cfg, hx]
      show (BitVec.ofNat 8 (conf _ (.priv v (0 + b / 8))).priority).getLsbD (b % 8) = false
      rw [h1]
      exact BitVec.getLsbD_zero
    · unfold ipriorityRead
      rw [if_pos (by lia)]
      exact BitVec.getLsbD_zero
  rw [roundTrip_iff (ipriorityWrite v g 0 (data.truncate 32) len) hk hoff hs rfl, hc.outside_iff]
  refine and_congr ⟨fun h j hj hlt => ?_, fun h b hb => ?_⟩ ⟨fun h j hj hlt => ?_, fun h j hj x hx hn => ?_⟩
  · apply BitVec.eq_of_getLsbD_eq
    intro b hb
    have h1 := h (8 * j + b) (by lia)
    rw [hzero _ (by lia), ipriority_expected, show (8 * j + b) / 8 = j by lia] at h1
    have hx : virqAt g (.redist v base) (o + j) = some (.priv v (o + j)) := (if_pos hlt).trans (hpriv _ hlt)
    rw [hx] at h1
    rw [extract_bit hb]
    exact h1.symm.trans BitVec.getLsbD_zero.symm
  · rw [hzero b hb, ipriority_expected]
    by_cases hlt : o + b / 8 < 32
    · have hx : virqAt g (.redist v base) (o + b / 8) = some (.priv v (o + b / 8)) :=
        (if_pos hlt).trans (hpriv _ hlt)
      have h1 := congrArg (BitVec.getLsbD · (b % 8)) (h (b / 8) (by lia) hlt)
      rw [extract_bit (by lia), show 8 * (b / 8) + b % 8 = b by lia] at h1
      rw [hx]
      exact (h1.trans BitVec.getLsbD_zero).symm
    · have hx : virqAt g (.redist v base) (o + b / 8) = none := if_neg hlt
      rw [hx]
      rfl
  · have hx : g.getVirq v (0 + j) = some (.priv v j) := by
      rw [Nat.zero_add]
      exact hpriv j (by lia)
    refine (congrArg Conf.priority (h j hj _ hx fun ⟨b, hb, irq, f, hf, hx'⟩ => ?_)).symm
    obtain ⟨rfl, -⟩ := Prod.mk.inj (Option.some.inj hf)
    have := getVirq_inj (virqAt_some hx') hx
    lia
  · rw [Nat.zero_add] at hx
    rw [hpriv j (by lia)] at hx
    cases hx
    by_cases hlt : j < o
    · rw [← h j hj hlt]
    · -- inside of the access
      refine absurd (ipriority_covered (j := j - o) (by lia) ?_) hn
      rw [show o + (j - o) = j by lia]
      exact (if_pos (by lia)).trans (hpriv j (by lia))

/-! ## `GICD_IROUTER` -/

theorem irqConf_migrateVirq (e : Bool) (cfg : VgicConfig) (s : Vgic) (c : Nat) (w : VcpuId) (x y : VirqId) :
    irqConf e ((s.migrateVirq cfg c w x).1.irqs y) = irqConf e (s.irqs y) := by
  unfold Vgic.migrateVirq
  split
  · dsimp only
    exact Vgic.setIrq_field (irqConf e) (fun _ => by rfl) y
  split
  · rfl
  split
  · dsimp only
    exact Vgic.setIrq_field (irqConf e) (fun _ => by rfl) y
  split
  · dsimp only
    exact Vgic.setIrq_field (irqConf e) (fun _ => by rfl) y
  split
  · dsimp only
    rw [irqConf_vcpuInjectVirq]
    unfold Vgic.requeued
    rw [Vgic.setIrq_field (irqConf e) fun _ => by rfl, Vgic.unlinkPd_irqs,
      Vgic.setIrq_field (irqConf e) fun _ => by rfl]
    exact Vgic.setIrq_field (irqConf e) (fun _ => by rfl) y
  · rfl

/-- `hv_migrate_virq` fails for an interrupt that is migrating already -/
theorem migrateVirq_neg_iff (cfg : VgicConfig) (s : Vgic) (c : Nat) (w : VcpuId) (x : VirqId) :
    (s.migrateVirq cfg c w x).2 < 0 ↔ cfg.hwintid x ≠ 0 ∧ (s.irqs x).migrate = true := by
  have h0 : ¬ (0 : Int) < 0 := by decide
  unfold Vgic.migrateVirq
  split
  · rename_i h
    exact iff_of_false h0 fun hc => hc.1 h
  rename_i hhw
  split
  · rename_i h
    exact iff_of_true (show (-1 : Int) < 0 by decide) ⟨hhw, h⟩
  rename_i hm
  refine iff_of_false ?_ fun hc => hm hc.2
  split
  · exact h0
  split
  · exact h0
  split
  · exact h0
  · exact h0

/-- the bits read of a route -/
theorem irouterRead_getLsbD (g : Gic) (v : VcpuId) (index : Nat) {b : Nat} (hb : b < 32) :
    (irouterRead g v index).getLsbD b =
      ((g.getVirq v index).map fun x => (conf g x).iroute.testBit b).getD false := by
  unfold irouterRead
  cases hx : g.getVirq v index with
  | none => exact BitVec.getLsbD_zero
  | some x =>
    show (BitVec.ofNat 32 (g.vgic.irqs x).iroute).getLsbD b = (g.vgic.irqs x).iroute.testBit b
    rw [BitVec.getLsbD_ofNat, decide_eq_true hb, Bool.true_and]

theorem irouter_expected {vm : Nat} {base : Reg} (b : Nat) : expectedBit g (.dist vm base) .irouter o data b =
    ((g.getVirq g.vcpu (32 + (o + b / 8) / 8)).map fun _ => data.getLsbD b).getD false := rfl

/-- the interrupt that is written has its register elsewhere -/
theorem irouter_not_covered {vm : Nat} {base : Reg} {x : VirqId} (hx : g.getVirq g.vcpu (o / 8) = some x) :
    ¬ Covered g (.dist vm base) .irouter o len x := by
  rintro ⟨b, hb, irq, f, hf, hx'⟩
  obtain ⟨rfl, -⟩ := Prod.mk.inj (Option.some.inj hf)
  have := getVirq_inj (virqAt_some hx') hx
  lia

theorem irouter_iff {vm : Nat} {base : Reg} (hk : bankAt (.dist vm base) off = some (.irouter, o))
    (hoff : offset gpa base = off) (hs : Supported (.dist vm base) off len) :
    RoundTrip g (.dist vm base) .irouter o gpa len data ↔ RoundTripWhen g (.dist vm base) .irouter o len data := by
  have hlen : len = 1 ∨ len = 4 := hs
  -- a write that leaves the configuration alone
  have hsame : ∀ s, (g.vgic.irouterWrite g.cfg g.cpu g.vcpu (o / 8) data.toNat = some s) →
      (∀ y, irqConf (g.edge y) (s.irqs y) = irqConf (g.edge y) (g.vgic.irqs y)) →
      (RoundTrip g (.dist vm base) .irouter o gpa len data ↔
        ∀ b < 8 * len, ((g.getVirq g.vcpu (o / 8)).map fun x => (conf g x).iroute.testBit b).getD false =
          ((g.getVirq g.vcpu (32 + (o + b / 8) / 8)).map fun _ => data.getLsbD b).getD false) := by
    intro s hw hconf
    have hc : ∀ y, conf { g with vgic := s } y = conf g y := hconf
    rw [roundTrip_iff { g with vgic := s } hk hoff hs
      (show (g.vgic.irouterWrite g.cfg g.cpu g.vcpu (o / 8) data.toNat).map _ = _ by rw [hw]; rfl)]
    refine Iff.trans ⟨fun h => h.1, fun h => ⟨h, fun x _ => hc x⟩⟩ (forall_congr' fun b => forall_congr' fun hb => ?_)
    rw [irouter_expected]
    show (irouterRead { g with vgic := s } g.vcpu (o / 8)).getLsbD b = _ ↔ _
    rw [irouterRead_getLsbD _ _ _ (by lia)]
    simp only [hc]
    rfl
  unfold RoundTripWhen
  dsimp only
  show _ ↔ (∀ x w, g.vgic.irouterMoves g.cfg g.vcpu (o / 8) data.toNat = some (x, w) → _) ∧ _
  cases hmv : g.vgic.irouterMoves g.cfg g.vcpu (o / 8) data.toNat with
  | none =>
    rw [hsame g.vgic (by unfold Vgic.irouterWrite; rw [hmv]) fun _ => rfl]
    exact ⟨fun h => ⟨(fun x w hx => by cases hx), h⟩, fun h => h.2⟩
  | some p =>
    obtain ⟨x, w⟩ := p
    obtain ⟨hx, hne⟩ : g.getVirq g.vcpu (o / 8) = some x ∧ (g.vgic.irqs x).iroute ≠ data.toNat := by
      unfold Vgic.irouterMoves at hmv
      split at hmv
      · rename_i hx hw
        split at hmv
        · cases hmv
        · rename_i hc
          cases hmv
          exact ⟨hx, fun e => hc (.inl e)⟩
      · cases hmv
    by_cases hnull : (g.vgic.irqs x).vcpu = none ∧ g.cfg.hwintid x ≠ 0
    · have hw : g.vgic.irouterWrite g.cfg g.cpu g.vcpu (o / 8) data.toNat = none := by
        unfold Vgic.irouterWrite
        rw [hmv]
        exact if_pos hnull
      refine iff_of_false (fun ⟨g', hg', _⟩ => ?_) fun h => ?_
      · rw [write_bank hk hoff] at hg'
        change (g.vgic.irouterWrite g.cfg g.cpu g.vcpu (o / 8) data.toNat).map _ = _ at hg'
        rw [hw] at hg'
        cases hg'
      · rcases h.1 x w rfl with e | ⟨e, -⟩
        · exact hnull.2 e
        · exact e hnull.1
    by_cases hneg : (g.vgic.migrateVirq g.cfg g.cpu w x).2 < 0
    · -- the route is stored
      have hw : g.vgic.irouterWrite g.cfg g.cpu g.vcpu (o / 8) data.toNat =
          some ((g.vgic.migrateVirq g.cfg g.cpu w x).1.setIrq x fun t => { t with iroute := data.toNat }) := by
        unfold Vgic.irouterWrite
        rw [hmv]
        dsimp only
        rw [if_neg hnull, if_pos hneg]
      obtain ⟨hhw, hm⟩ := (migrateVirq_neg_iff _ _ _ _ _).mp hneg
      refine iff_of_false (fun ⟨g', hg', _, hout⟩ => ?_) fun h => ?_
      · rw [write_bank hk hoff] at hg'
        change (g.vgic.irouterWrite g.cfg g.cpu g.vcpu (o / 8) data.toNat).map _ = _ at hg'
        rw [hw] at hg'
        cases hg'
        have h1 := congrArg Conf.iroute (hout x (irouter_not_covered hx))
        refine hne (h1.symm.trans ?_)
        unfold conf
        dsimp only
        rw [Vgic.setIrq_self]
        rfl
      · rcases h.1 x w rfl with e | ⟨-, e⟩
        · exact hhw e
        · rw [hm] at e
          cases e
    · have hw : g.vgic.irouterWrite g.cfg g.cpu g.vcpu (o / 8) data.toNat =
          some (g.vgic.migrateVirq g.cfg g.cpu w x).1 := by
        unfold Vgic.irouterWrite
        rw [hmv]
        dsimp only
        rw [if_neg hnull, if_neg hneg]
      rw [hsame _ hw fun y => irqConf_migrateVirq _ _ _ _ _ _ y]
      refine ⟨fun h => ⟨fun x' w' e => ?_, h⟩, fun h => h.2⟩
      obtain ⟨rfl, rfl⟩ := Prod.mk.inj (Option.some.inj e)
      by_cases hhw : g.cfg.hwintid x = 0
      · exact .inl hhw
      · refine .inr ⟨fun e => hnull ⟨e, hhw⟩, ?_⟩
        by_contra hm
        exact hneg ((migrateVirq_neg_iff _ _ _ _ _).mpr ⟨hhw, by simpa using hm⟩)

/-- **Register round trips.**  For every bank, place, size and value the round trip holds if and only if
`RoundTripWhen`. -/
theorem register_round_trip (g : Gic) (r : Range) (k : Bank) (o off : Nat) (gpa : Reg) (len : Nat) (data : Reg)
    (hk : bankAt r off = some (k, o)) (hoff : offset gpa r.base = off) (hs : Supported r off len) :
    RoundTrip g r k o gpa len data ↔ RoundTripWhen g r k o len data := by
  cases k with
  | igroupr => exact igroupr_iff hk hoff hs
  | isenabler => exact isenabler_iff hk hoff hs
  | icenabler => exact icenabler_iff hk hoff hs
  | ipriorityr =>
    cases r with
    | dist vm base => exact ipriorityr_dist_iff hk hoff hs
    | redist v base => exact ipriorityr_redist_iff hk hoff hs
  | icfgr => exact icfgr_iff hk hoff hs
  | irouter =>
    cases r with
    | dist vm base => exact irouter_iff hk hoff hs
    | redist v base => exact (redist_place hk).elim

end

/-- a word of `GICD_IGROUPR` -/
theorem register_round_trip_group :
    RoundTrip idleGic (.dist 0 0x8000000) .igroupr 0 0x8000080 4 0xff :=
  (register_round_trip idleGic (.dist 0 0x8000000) .igroupr 0 0x80 0x8000080 4 0xff rfl (by decide)
    (.inr rfl)).mpr fun i hi hlt => absurd hlt (by omega)

/-- **A word of `GICD_IPRIORITYR`.**  The priorities written are all 0, and those read are of other interrupts. -/
theorem register_round_trip_fails : ¬ ∀ (g : Gic) (r : Range) (k : Bank) (o off : Nat) (gpa : Reg) (len : Nat)
    (data : Reg), bankAt r off = some (k, o) → offset gpa r.base = off → Supported r off len →
      RoundTrip g r k o gpa len data := by
  intro h
  obtain ⟨g', hg', hread, -⟩ := h idleGic (.dist 0 0x8000000) .ipriorityr 0 0x400 0x8000400 4 0x64646464 rfl
    (by decide) (.inr rfl)
  have h1 := hread (fun _ => 0) 0 2 (by decide)
  have hw : distMmioWrite idleGic 0 0x8000000 0x8000400 4 0x64646464 = some g' := hg'
  have hz : (distMmioWrite idleGic 0 0x8000000 0x8000400 4 0x64646464).map (fun g' =>
      (distMmioRead ⟨g', fun _ => 0⟩ 0 0x8000000 0x8000400 4 0).2.getLsbD 2) = some false := by decide
  rw [hw] at hz
  have h2 : (distMmioRead ⟨g', fun _ => 0⟩ 0 0x8000000 0x8000400 4 0).2.getLsbD 2 = false := Option.some.inj hz
  have h3 : expectedBit idleGic (.dist 0 0x8000000) .ipriorityr 0 0x64646464 2 = true := by decide
  rw [h3] at h1
  exact absurd (h1.symm.trans h2) (by decide)

end LkHv.VgicMmio
