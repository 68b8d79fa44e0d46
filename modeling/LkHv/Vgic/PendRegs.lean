import Mathlib.Data.Nat.Find
import LkHv.Vgic.Write

/-!
# The pending registers (`hv/arch/armv8a/vgic_mmio.c`)

An interrupt is pending if it is in a pending list, or in a list register that says so.  `ispendr_read` goes by flags
and by list registers of the CPU it runs on, `ispendr_write` leaves hardware interrupts to the physical controller
and puts the others where `insert_into_pdlist` finds room, and `icpendr_write` does not touch list registers.

* `IsPending`               in a pending list, or pending in a list register;
* `PendOk`                  a read shows what is pending, and a write sets or clears just that;
* `PendWhen`                the condition;
* `pending_registers`       exactly then a pending register is right;
* `pending_registers_fails` not so for a timer interrupt set pending.
-/

namespace LkHv.VgicMmio
open Trap

/-! ## the property -/

/-- in a list register of the vCPU on whose list the interrupt is, and pending there -/
def LrPending (g : Gic) (x : VirqId) : Prop :=
  ∃ v k, x ∈ g.vgic.lrHead v ∧ k < g.cfg.lrNr ∧ (g.vgic.regs g.cfg v k).virq = g.cfg.intid x ∧
    lrPending (g.vgic.regs g.cfg v k)

/-- in a pending list -/
def Queued (g : Gic) (x : VirqId) : Prop := ∃ v, x ∈ g.vgic.pdHead v

def IsPending (g : Gic) (x : VirqId) : Prop := Queued g x ∨ LrPending g x

/-- the interrupt of bit `i`, when that is written -/
def Written (g : Gic) (v : VcpuId) (index : Nat) (data : Reg) (i : Nat) (x : VirqId) : Prop :=
  g.getVirq v (index + i) = some x ∧ data.getLsbD i = true

/-- an interrupt that `ispendr_write` tries to queue: an enabled software interrupt, neither queued nor pending -/
structure Tried (g : Gic) (v : VcpuId) (index : Nat) (data : Reg) (i : Nat) (x : VirqId) : Prop where
  written : Written g v index data i x
  number : GIC_BASE_PPI ≤ index + i
  enable : (g.vgic.irqs x).enable = true
  pdq : (g.vgic.irqs x).pdq = false
  pending : (g.vgic.irqs x).pending = false
  pdNode : (g.vgic.irqs x).pdNode = false
  software : g.cfg.hwintid x = 0
  status : g.vgic.status v ≠ .shutdown

/-- the pending list of the writing vCPU has an interrupt with a smaller priority value, or it is empty and the first
one that is tried is this one or has a smaller value -/
def RoomLeft (g : Gic) (v : VcpuId) (index : Nat) (data : Reg) (i : Nat) (x : VirqId) : Prop :=
  if g.vgic.pdHead v = [] then
    ∀ k < i, ∀ y, Tried g v index data k y → (∀ l < k, ∀ z, ¬ Tried g v index data l z) →
      (g.vgic.irqs y).priority < (g.vgic.irqs x).priority
  else ∃ t ∈ g.vgic.pdHead v, (g.vgic.irqs t).priority < (g.vgic.irqs x).priority

/-- the interrupts written are in no list register that says they are pending; those in a pending list are no SGIs,
enabled, and linked -/
def ClearWhen (g : Gic) (v : VcpuId) (index : Nat) (data : Reg) : Prop :=
  ∀ i < 32, ∀ x, Written g v index data i x → ¬ LrPending g x ∧
    (Queued g x → GIC_BASE_PPI ≤ index + i ∧ (g.vgic.irqs x).enable = true ∧ (g.vgic.irqs x).pdNode = true)

section
variable {g g' : Gic} {m : Mem} {r : Range} {v : VcpuId} {index off n : Nat} {clear : Bool} {gpa data : Reg}
  {x y : VirqId}

/-! ## reads -/

/-- what neither of the two writes touches -/
structure SameRegs (g g' : Gic) : Prop where
  cfg : g'.cfg = g.cfg
  lrs : Vgic.LrSame g.vgic g'.vgic

theorem SameRegs.lrPending_iff (h : SameRegs g g') (x : VirqId) : LrPending g' x ↔ LrPending g x := by
  have hregs : ∀ v k, g'.vgic.regs g'.cfg v k = g.vgic.regs g.cfg v k := by
    intro v k
    unfold Vgic.regs Vgic.loadedOn
    rw [h.cfg, h.lrs.vcpu, h.lrs.ichLr, h.lrs.lr]
  unfold LrPending
  simp only [hregs]
  simp only [h.cfg, h.lrs.lrHead]

/-- what every round keeps, the loop keeps -/
theorem irqLoop_rule {I : Gic → Prop} {f : Nat → VirqId → Gic → Gic} (hf : ∀ i x g, I g → I (f i x g)) (h : I g) :
    ∀ n, I (irqLoop v index f n g) := by
  intro n
  induction n with
  | zero => exact h
  | succ n ih =>
    rw [irqLoop]
    cases hx : (irqLoop v index f n g).getVirq v (index + n) with
    | none => exact ih
    | some x => exact hf n x _ ih

theorem sameRegs_clearPending (value : BitVec 32) (i : Nat) (x : VirqId) (h : SameRegs g g') :
    SameRegs g (clearPending index value i x g') := by
  unfold clearPending
  split
  · exact h
  split
  · exact h
  dsimp only
  split <;> exact ⟨h.cfg, h.lrs.trans (.virqCpending _ x)⟩

theorem virqCpending_spec (s : Vgic) (x : VirqId) :
    (s.virqCpending x).pdHead = (if (s.irqs x).pdNode then Links.unlink s.pdHead x else s.pdHead) ∧
      ∀ y, ((s.virqCpending x).irqs y).enable = (s.irqs y).enable ∧
        ((s.virqCpending x).irqs y).pdNode = if y = x then false else (s.irqs y).pdNode := by
  have hnode : ((s.setIrq x fun r => { r with pdq := false }).irqs x).pdNode = (s.irqs x).pdNode :=
    Vgic.setIrq_field VgicIrq.pdNode (fun _ => by rfl) x
  unfold Vgic.virqCpending
  dsimp only
  rw [hnode]
  by_cases hn : (s.irqs x).pdNode = true
  · rw [if_pos hn, if_pos hn]
    refine ⟨rfl, fun y => ⟨?_, ?_⟩⟩
    · rw [Vgic.setIrq_field VgicIrq.enable fun _ => by rfl, Vgic.unlinkPd_irqs,
        Vgic.setIrq_field VgicIrq.enable fun _ => by rfl]
      exact Vgic.setIrq_field VgicIrq.enable (fun _ => by rfl) y
    · rw [Vgic.setIrq_field VgicIrq.pdNode fun _ => by rfl, Vgic.unlinkPd_irqs, Vgic.setIrq_irqs]
      split
      · rfl
      · exact Vgic.setIrq_field VgicIrq.pdNode (fun _ => by rfl) y
  · rw [if_neg hn, if_neg hn]
    refine ⟨rfl, fun y => ⟨Vgic.setIrq_field VgicIrq.enable (fun _ => by rfl) y, ?_⟩⟩
    rw [Vgic.setIrq_field VgicIrq.pdNode fun _ => by rfl]
    split
    · rename_i e
      rw [e]
      simpa using hn
    · rfl

/-- the pending lists after `icpendr_write` -/
theorem icpendrWrite_queued (g : Gic) (v : VcpuId) (index : Nat) (value : BitVec 32) :
    (∀ i < 32, ∀ x, g.getVirq v (index + i) = some x → (Queued (icpendrWrite g v index value) x ↔ Queued g x ∧
      ¬ (value.getLsbD i = true ∧ GIC_BASE_PPI ≤ index + i ∧ (g.vgic.irqs x).enable = true ∧
        (g.vgic.irqs x).pdNode = true))) ∧
    ∀ y, (∀ i < 32, g.getVirq v (index + i) ≠ some y) → (Queued (icpendrWrite g v index value) y ↔ Queued g y) := by
  let get : Gic → VirqId → Prop × Bool × Bool :=
    fun g x => (Queued g x, (g.vgic.irqs x).enable, (g.vgic.irqs x).pdNode)
  let h : Nat → Prop × Bool × Bool → Prop × Bool × Bool := fun i p =>
    if value.getLsbD i = true ∧ GIC_BASE_PPI ≤ index + i ∧ p.2.1 = true then
      (p.1 ∧ ¬ p.2.2 = true, p.2.1, false) else p
  -- one round
  have hround : ∀ i x g y, get (clearPending index value i x g) y = if y = x then h i (get g x) else get g y := by
    intro i x g y
    have hno : ¬ (value.getLsbD i = true ∧ GIC_BASE_PPI ≤ index + i ∧ (g.vgic.irqs x).enable = true) →
        clearPending index value i x g = g := by
      intro hn
      unfold clearPending
      by_cases h1 : value.getLsbD i = false ∨ index + i < GIC_BASE_PPI
      · rw [if_pos h1]
      · rw [if_neg h1, if_pos]
        obtain ⟨h2, h3⟩ := not_or.mp h1
        by_contra he
        exact hn ⟨by simpa using h2, by omega, by simpa using he⟩
    by_cases hc : value.getLsbD i = true ∧ GIC_BASE_PPI ≤ index + i ∧ (g.vgic.irqs x).enable = true
    · have hget : get (clearPending index value i x g) y = get { g with vgic := g.vgic.virqCpending x } y := by
        unfold clearPending
        rw [if_neg (by rw [hc.1]; simp; exact hc.2.1), if_neg (by rw [hc.2.2]; simp)]
        dsimp only
        split <;> rfl
      obtain ⟨hpd, hirq⟩ := virqCpending_spec g.vgic x
      rw [hget]
      show (Queued _ y, ((g.vgic.virqCpending x).irqs y).enable, ((g.vgic.virqCpending x).irqs y).pdNode) = _
      rw [(hirq y).1, (hirq y).2]
      have hq : Queued { g with vgic := g.vgic.virqCpending x } y ↔
          Queued g y ∧ ¬ (y = x ∧ (g.vgic.irqs x).pdNode = true) := by
        show (∃ w, y ∈ (g.vgic.virqCpending x).pdHead w) ↔ _
        rw [hpd]
        by_cases hn : (g.vgic.irqs x).pdNode = true
        · rw [if_pos hn]
          simp only [Links.mem_unlink, exists_and_right, hn, and_true]
          exact Iff.rfl
        · rw [if_neg hn]
          exact ⟨fun h => ⟨h, fun h' => hn h'.2⟩, fun h => h.1⟩
      by_cases e : y = x
      · subst e
        rw [if_pos rfl, if_pos rfl]
        show _ = if _ then _ else _
        rw [if_pos hc]
        refine Prod.ext (propext (hq.trans ?_)) rfl
        exact and_congr_right fun _ => not_congr ⟨fun h => h.2, fun h => ⟨rfl, h⟩⟩
      · rw [if_neg e, if_neg e]
        exact Prod.ext (propext (hq.trans ⟨fun h => h.1, fun h => ⟨h, fun h' => e h'.1⟩⟩)) rfl
    · rw [hno hc]
      split
      · rename_i e
        rw [e]
        exact (if_neg hc).symm
      · rfl
  have hcfg : ∀ i x g, (clearPending index value i x g).cfg = g.cfg ∧
      (clearPending index value i x g).vcpu = g.vcpu := by
    intro i x g
    unfold clearPending
    split
    · exact ⟨rfl, rfl⟩
    split
    · exact ⟨rfl, rfl⟩
    dsimp only
    split <;> exact ⟨rfl, rfl⟩
  obtain ⟨-, hin, hout⟩ := @irqLoop_get g v index 32 _ get h _ hcfg
    (fun i x g => by rw [hround, if_pos rfl]) fun i x g y hy => by rw [hround, if_neg hy]
  refine ⟨fun i hi x hx => ?_, fun y hy => ?_⟩
  · have h1 : Queued (icpendrWrite g v index value) x = (h i (get g x)).1 := congrArg Prod.fst (hin i hi x hx)
    rw [h1]
    show (if _ then _ else _ : Prop × Bool × Bool).1 ↔ _
    by_cases hc : value.getLsbD i = true ∧ GIC_BASE_PPI ≤ index + i ∧ (g.vgic.irqs x).enable = true
    · rw [if_pos hc]
      exact and_congr_right fun _ => not_congr ⟨fun hn => ⟨hc.1, hc.2.1, hc.2.2, hn⟩, fun hn => hn.2.2.2⟩
    · rw [if_neg hc]
      exact ⟨fun hq => ⟨hq, fun hn => hc ⟨hn.1, hn.2.1, hn.2.2.1⟩⟩, fun hq => hq.1⟩
  · have h1 : Queued (icpendrWrite g v index value) y = (get g y).1 := congrArg Prod.fst (hout y hy)
    rw [h1]

theorem clear_iff : (∀ y, IsPending (icpendrWrite g v index (data.truncate 32)) y ↔
    IsPending g y ∧ ¬ ∃ i < 32, Written g v index data i y) ↔ ClearWhen g v index data := by
  obtain ⟨hin, hout⟩ := icpendrWrite_queued g v index (data.truncate 32)
  have hlr : ∀ y, LrPending (icpendrWrite g v index (data.truncate 32)) y ↔ LrPending g y :=
    (irqLoop_rule (I := SameRegs g) (fun i x g' h => sameRegs_clearPending _ i x h) ⟨rfl, .refl _⟩ 32).lrPending_iff
  have hbit : ∀ i < 32, (data.truncate 32).getLsbD i = data.getLsbD i := fun i hi => by
    rw [BitVec.getLsbD_setWidth, decide_eq_true hi, Bool.true_and]
  constructor
  · intro h i hi x hx
    have hno : ¬ IsPending (icpendrWrite g v index (data.truncate 32)) x := fun hp => ((h x).mp hp).2 ⟨i, hi, hx⟩
    refine ⟨fun hl => hno (.inr ((hlr x).mpr hl)), fun hq => ?_⟩
    by_contra hn
    refine hno (.inl ((hin i hi x hx.1).mpr ⟨hq, fun hc => hn hc.2⟩))
  · intro h y
    by_cases hy : ∃ i < 32, g.getVirq v (index + i) = some y
    · obtain ⟨i, hi, hx⟩ := hy
      have huniq : (∃ j < 32, Written g v index data j y) ↔ data.getLsbD i = true := by
        constructor
        · rintro ⟨j, hj, hw⟩
          have e : i = j := by
            have := getVirq_inj hx hw.1
            omega
          rw [e]
          exact hw.2
        · exact fun hb => ⟨i, hi, hx, hb⟩
      unfold IsPending
      rw [hin i hi y hx, hlr, huniq, hbit i hi]
      by_cases hb : data.getLsbD i = true
      · obtain ⟨h1, h2⟩ := h i hi y ⟨hx, hb⟩
        refine iff_of_false ?_ fun hc => hc.2 hb
        rintro (⟨hq, hn⟩ | hl)
        · exact hn ⟨hb, h2 hq⟩
        · exact h1 hl
      · exact ⟨fun hc => ⟨hc.imp_left And.left, hb⟩, fun hc => hc.1.imp_left fun hq => ⟨hq, fun hn => hb hn.1⟩⟩
    · have hnone : ∀ i < 32, g.getVirq v (index + i) ≠ some y := fun i hi hx => hy ⟨i, hi, hx⟩
      unfold IsPending
      rw [hout y hnone, hlr]
      exact ⟨fun hc => ⟨hc, fun ⟨i, hi, hw⟩ => hnone i hi hw.1⟩, fun hc => hc.1⟩

/-! ## setting -/

theorem insertIntoPdlist_other (s : Vgic) (v : VcpuId) (hy : y ≠ x) : (s.insertIntoPdlist x v).irqs y = s.irqs y := by
  unfold Vgic.insertIntoPdlist
  split
  · rfl
  dsimp only
  split
  · rw [Vgic.linkPd_irqs, Vgic.setIrq_of_ne _ _ hy, Vgic.setIrq_of_ne _ _ hy]
  split
  · rw [Vgic.linkPd_irqs, Vgic.setIrq_of_ne _ _ hy, Vgic.setIrq_of_ne _ _ hy]
  · rw [Vgic.setIrq_of_ne _ _ hy]

/-- what `hv_vcpu_inject_virq` does besides the insertion: it may make a blocked vCPU ready -/
theorem vcpuInjectVirq_spec (s : Vgic) (c : Nat) (v : VcpuId) (x : VirqId) :
    if (s.irqs x).enable = true ∧ s.status v ≠ .shutdown ∧ (s.irqs x).pdq = false then
      (s.vcpuInjectVirq c v x).1.pdHead = (s.insertIntoPdlist x v).pdHead ∧
        (s.vcpuInjectVirq c v x).1.irqs = (s.insertIntoPdlist x v).irqs ∧
        ((s.vcpuInjectVirq c v x).1.status v = .shutdown ↔ s.status v = .shutdown)
    else (s.vcpuInjectVirq c v x).1 = s := by
  have hst : (s.insertIntoPdlist x v).status = s.status := by
    unfold Vgic.insertIntoPdlist
    split
    · rfl
    dsimp only
    split
    · rfl
    split <;> rfl
  have hres : ∀ t : Vgic, t.status = s.status → (t.vcpuResume v).pdHead = t.pdHead ∧
      (t.vcpuResume v).irqs = t.irqs ∧ ((t.vcpuResume v).status v = .shutdown ↔ s.status v = .shutdown) := by
    intro t ht
    unfold Vgic.vcpuResume
    split
    · rename_i hb
      rw [ht] at hb
      refine ⟨rfl, rfl, ?_⟩
      show Function.update t.status v .ready v = .shutdown ↔ _
      rw [Function.update_self, hb]
      exact iff_of_false (by decide) (by decide)
    · rw [ht]
      exact ⟨rfl, rfl, Iff.rfl⟩
  unfold Vgic.vcpuInjectVirq
  split
  · rename_i h
    obtain ⟨he, hs, hq⟩ := h
    rw [if_neg (by rw [he]; simp), if_neg hs, if_neg (by rw [hq]; simp)]
    dsimp only
    split
    · split <;> exact ⟨rfl, rfl, by rw [hst]⟩
    · split
      · exact hres _ hst
      · exact ⟨rfl, rfl, by rw [hst]⟩
  · rename_i h
    split
    · rfl
    rename_i he
    split
    · rfl
    rename_i hs
    split
    · rfl
    rename_i hq
    exact absurd ⟨by simpa using he, hs, by simpa using hq⟩ h

/-- the interrupts that rounds before `n` have queued -/
def Added (g : Gic) (v : VcpuId) (index : Nat) (data : Reg) (n : Nat) (y : VirqId) : Prop :=
  ∃ j < n, Tried g v index data j y ∧ RoomLeft g v index data j y

/-- the state after `n` rounds of `ispendr_write` -/
structure Rounds (g : Gic) (v : VcpuId) (index : Nat) (data : Reg) (n : Nat) (g' : Gic) : Prop where
  cfg : g'.cfg = g.cfg
  status : g'.vgic.status v = .shutdown ↔ g.vgic.status v = .shutdown
  /-- interrupts whose round is to come are as before -/
  fresh : ∀ y, (∀ j < n, g.getVirq v (index + j) ≠ some y) → g'.vgic.irqs y = g.vgic.irqs y
  priority : ∀ y, (g'.vgic.irqs y).priority = (g.vgic.irqs y).priority
  others : ∀ w, w ≠ v → g'.vgic.pdHead w = g.vgic.pdHead w
  list : ∀ y, y ∈ g'.vgic.pdHead v ↔ y ∈ g.vgic.pdHead v ∨ Added g v index data n y

theorem Rounds.zero (g : Gic) (v : VcpuId) (index : Nat) (data : Reg) : Rounds g v index data 0 g :=
  ⟨rfl, Iff.rfl, fun _ _ => rfl, fun _ => rfl, fun _ _ => rfl, fun y =>
    ⟨.inl, fun h => h.elim id fun ⟨j, hj, _⟩ => absurd hj (by omega)⟩⟩

/-- `insert_into_pdlist` finds room in round `n` if and only if `RoomLeft`: an insertion that found room has not
lowered the smallest value of the list -/
theorem Rounds.room (h : Rounds g v index data n g') : g'.vgic.RoomFor v x ↔ RoomLeft g v index data n x := by
  unfold Vgic.RoomFor RoomLeft
  simp only [h.priority]
  by_cases hl : g.vgic.pdHead v = []
  · rw [if_pos hl]
    have hmem : ∀ y, y ∈ g'.vgic.pdHead v ↔ Added g v index data n y := by
      intro y
      rw [h.list, hl]
      exact ⟨fun h => h.elim (fun h => absurd h List.not_mem_nil) id, .inr⟩
    by_cases hf : ∃ k < n, ∃ y, Tried g v index data k y
    · -- the first interrupt that was tried found the list empty
      obtain ⟨k, ⟨hk, y, hy⟩, hmin⟩ : ∃ k, (k < n ∧ ∃ y, Tried g v index data k y) ∧
          ∀ l < k, ∀ z, ¬ Tried g v index data l z := by
        classical
        obtain ⟨k, hk, y, hy⟩ := hf
        have hex : ∃ k, ∃ y, Tried g v index data k y := ⟨k, y, hy⟩
        refine ⟨Nat.find hex, ⟨lt_of_le_of_lt (Nat.find_le ⟨y, hy⟩) hk, Nat.find_spec hex⟩, fun l hl z hz => ?_⟩
        exact Nat.find_min hex hl ⟨z, hz⟩
      have hroom : RoomLeft g v index data k y := by
        unfold RoomLeft
        rw [if_pos hl]
        exact fun j hj z hz _ => absurd hz (hmin j hj z)
      have hadd : y ∈ g'.vgic.pdHead v := (hmem y).mpr ⟨k, hk, hy, hroom⟩
      constructor
      · rintro (hnil | ⟨t, ht, hlt⟩) j hj z hz hmin'
        · rw [hnil] at hadd
          exact absurd hadd List.not_mem_nil
        · have hjk : j = k := by
            by_contra hne
            rcases Nat.lt_or_gt_of_ne hne with h1 | h1
            · exact hmin j h1 z hz
            · exact hmin' k h1 y hy
          subst hjk
          cases (hz.written.1.symm.trans hy.written.1)
          obtain ⟨i, hi, hti, hri⟩ := (hmem t).mp ht
          unfold RoomLeft at hri
          rw [if_pos hl] at hri
          rcases Nat.lt_trichotomy j i with h1 | h1 | h1
          · exact lt_trans (hri j h1 y hy hmin) hlt
          · subst h1
            cases (hti.written.1.symm.trans hy.written.1)
            exact hlt
          · exact absurd hti (hmin i h1 t)
      · intro hr
        exact .inr ⟨y, hadd, hr k hk y hy hmin⟩
    · have hnil : g'.vgic.pdHead v = [] := by
        rw [List.eq_nil_iff_forall_not_mem]
        intro y hy
        obtain ⟨k, hk, hy, -⟩ := (hmem y).mp hy
        exact hf ⟨k, hk, y, hy⟩
      exact iff_of_true (.inl hnil) fun k hk y hy _ => absurd ⟨k, hk, y, hy⟩ hf
  · rw [if_neg hl]
    constructor
    · rintro (hnil | ⟨t, ht, hlt⟩)
      · obtain ⟨t, l, e⟩ := List.exists_cons_of_ne_nil hl
        have : t ∈ g'.vgic.pdHead v := (h.list t).mpr (.inl (by rw [e]; exact .head _))
        rw [hnil] at this
        exact absurd this List.not_mem_nil
      · rcases (h.list t).mp ht with ht | ⟨j, -, -, hr⟩
        · exact ⟨t, ht, hlt⟩
        · unfold RoomLeft at hr
          rw [if_neg hl] at hr
          obtain ⟨u, hu, hut⟩ := hr
          exact ⟨u, hu, lt_trans hut hlt⟩
    · rintro ⟨t, ht, hlt⟩
      exact .inr ⟨t, (h.list t).mpr (.inl ht), hlt⟩

theorem Added.succ_iff : Added g v index data (n + 1) y ↔
    Added g v index data n y ∨ Tried g v index data n y ∧ RoomLeft g v index data n y := by
  constructor
  · rintro ⟨j, hj, h⟩
    by_cases e : j = n
    · exact .inr (e ▸ h)
    · exact .inl ⟨j, by lia, h⟩
  · rintro (⟨j, hj, h⟩ | h)
    · exact ⟨j, by lia, h⟩
    · exact ⟨n, by lia, h⟩

/-- a round that leaves the pending lists alone -/
theorem Rounds.idle (h : Rounds g v index data n g') {t : Gic} (hcfg : t.cfg = g'.cfg)
    (hst : t.vgic.status v = .shutdown ↔ g'.vgic.status v = .shutdown)
    (hirq : ∀ y, (∀ j < n + 1, g.getVirq v (index + j) ≠ some y) → t.vgic.irqs y = g'.vgic.irqs y)
    (hpri : ∀ y, (t.vgic.irqs y).priority = (g'.vgic.irqs y).priority) (hpd : t.vgic.pdHead = g'.vgic.pdHead)
    (hno : ∀ y, Tried g v index data n y → ¬ RoomLeft g v index data n y) : Rounds g v index data (n + 1) t where
  cfg := hcfg.trans h.cfg
  status := hst.trans h.status
  fresh y hy := (hirq y hy).trans (h.fresh y fun j hj => hy j (by omega))
  priority y := (hpri y).trans (h.priority y)
  others w hw := by rw [hpd, h.others w hw]
  list y := by
    rw [hpd, h.list, Added.succ_iff]
    exact or_congr_right ⟨.inl, fun h => h.elim id fun h => absurd h.2 (hno y h.1)⟩

theorem Rounds.succ (h : Rounds g v index data n g') (hn : n < 32) (hx : g.getVirq v (index + n) = some x) :
    Rounds g v index data (n + 1) (setPending v index (data.truncate 32) n x g') := by
  have hbit : (data.truncate 32).getLsbD n = data.getLsbD n := by
    rw [BitVec.getLsbD_setWidth, decide_eq_true hn, Bool.true_and]
  have hirq : g'.vgic.irqs x = g.vgic.irqs x := h.fresh x fun j hj hj' => by
    have := getVirq_inj hj' hx
    lia
  -- the interrupt of this round is `x`
  have hself : ∀ y, Tried g v index data n y → y = x := fun y hy => Option.some.inj (hy.written.1.symm.trans hx)
  unfold setPending
  rw [hbit]
  split
  · rename_i hc
    refine h.idle rfl Iff.rfl (fun _ _ => rfl) (fun _ => rfl) rfl fun y hy => absurd hc ?_
    rintro (e | e)
    · rw [hy.written.2] at e
      cases e
    · exact absurd hy.number (by lia)
  rename_i hc1
  split
  · rename_i hc
    refine h.idle rfl Iff.rfl (fun _ _ => rfl) (fun _ => rfl) rfl fun y hy => absurd hc ?_
    rw [isVirqPending, hirq, ← hself y hy, hy.enable, hy.pdq, hy.pending]
    simp
  rename_i hc2
  split
  · rename_i hc
    refine h.idle rfl Iff.rfl (fun _ _ => rfl) (fun _ => rfl) rfl fun y hy => absurd hy.software ?_
    rw [hself y hy, ← h.cfg]
    exact hc
  rename_i hc3
  -- the interrupt is injected into the writing vCPU
  have hspec := vcpuInjectVirq_spec g'.vgic g'.cpu v x
  obtain ⟨h1, h2⟩ := not_or.mp hc1
  obtain ⟨h3, h4⟩ := not_or.mp hc2
  rw [hirq] at h3
  rw [isVirqPending, hirq] at h4
  have hpri : ∀ y, ((g'.vgic.vcpuInjectVirq g'.cpu v x).1.irqs y).priority = (g'.vgic.irqs y).priority := fun y =>
    congrArg Conf.priority (irqConf_vcpuInjectVirq false g'.vgic g'.cpu v x y)
  have htried : Tried g v index data n x ↔ g'.vgic.status v ≠ .shutdown ∧ (g'.vgic.irqs x).pdNode = false := by
    rw [hirq]
    constructor
    · exact fun ht => ⟨fun e => ht.status (h.status.mp e), ht.pdNode⟩
    · rintro ⟨hs, hn⟩
      have h4' : (g.vgic.irqs x).pdq = false ∧ (g.vgic.irqs x).pending = false := by simpa using h4
      exact ⟨⟨hx, by simpa using h1⟩, by lia, by simpa using h3, h4'.1, h4'.2, hn,
        by rw [← h.cfg]; exact not_not.mp hc3, fun e => hs (h.status.mpr e)⟩
  split at hspec
  · rename_i hc
    obtain ⟨hpd, hir, hst⟩ := hspec
    have hother : ∀ y, (∀ j < n + 1, g.getVirq v (index + j) ≠ some y) →
        (g'.vgic.vcpuInjectVirq g'.cpu v x).1.irqs y = g'.vgic.irqs y := by
      intro y hy
      rw [hir]
      exact insertIntoPdlist_other _ v fun e => hy n (by lia) (e ▸ hx)
    rcases Vgic.insertIntoPdlist_cases g'.vgic x v with ⟨hn, e⟩ | ⟨hn, hroom, hq⟩ | ⟨hn, hroom, hm⟩
    · refine h.idle rfl hst hother hpri (by show (Vgic.vcpuInjectVirq _ _ v x).1.pdHead = _; rw [hpd, e])
        fun y hy => ?_
      rw [hself y hy] at hy
      rw [(htried.mp hy).2] at hn
      cases hn
    · have ht := htried.mpr ⟨hc.2.1, hn⟩
      have hleft := h.room.mp hroom
      obtain ⟨l, hl, hupd⟩ := hq.pdHead
      refine ⟨h.cfg, hst.trans h.status, fun y hy => (hother y hy).trans (h.fresh y fun j hj => hy j (by lia)),
        fun y => (hpri y).trans (h.priority y), fun w hw => ?_, fun y => ?_⟩
      · show (Vgic.vcpuInjectVirq _ _ v x).1.pdHead w = _
        rw [hpd, hupd, Function.update_of_ne hw, h.others w hw]
      · show y ∈ (Vgic.vcpuInjectVirq _ _ v x).1.pdHead v ↔ _
        rw [hpd, hupd, Function.update_self, hl.mem_iff, List.mem_cons, h.list, Added.succ_iff]
        constructor
        · rintro (rfl | hy | hy)
          · exact .inr (.inr ⟨ht, hleft⟩)
          · exact .inl hy
          · exact .inr (.inl hy)
        · rintro (hy | hy | hy)
          · exact .inr (.inl hy)
          · exact .inr (.inr hy)
          · exact .inl (hself y hy.1)
    · refine h.idle rfl hst hother hpri
        (by show (Vgic.vcpuInjectVirq _ _ v x).1.pdHead = _; rw [hpd, hm.pdHead]) fun y hy hleft => ?_
      rw [hself y hy] at hleft
      exact hroom (h.room.mpr hleft)
  · rename_i hc
    refine h.idle rfl (by show (Vgic.vcpuInjectVirq _ _ v x).1.status v = _ ↔ _; rw [hspec])
      (fun y _ => by show (Vgic.vcpuInjectVirq _ _ v x).1.irqs y = _; rw [hspec]) hpri
      (by show (Vgic.vcpuInjectVirq _ _ v x).1.pdHead = _; rw [hspec]) fun y hy => absurd ?_ hc
    rw [hself y hy] at hy
    rw [hirq]
    exact ⟨hy.enable, (htried.mp hy).1, hy.pdq⟩

theorem rounds (g : Gic) (v : VcpuId) (index : Nat) (data : Reg) {n : Nat} (hn : n ≤ 32) :
    Rounds g v index data n (irqLoop v index (setPending v index (data.truncate 32)) n g) := by
  induction n with
  | zero => exact .zero g v index data
  | succ n ih =>
    have h := ih (by lia)
    rw [irqLoop, getVirq_congr h.cfg]
    cases hx : g.getVirq v (index + n) with
    | none =>
      refine h.idle rfl Iff.rfl (fun _ _ => rfl) (fun _ => rfl) rfl fun y hy => ?_
      cases hx.symm.trans hy.written.1
    | some x => exact h.succ (by lia) hx

end

end LkHv.VgicMmio
