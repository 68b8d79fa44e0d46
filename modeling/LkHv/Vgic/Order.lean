import LkHv.Vgic.Pending

/-!
# The order of the pending list

`insert_into_pdlist` looks for the first interrupt whose priority value is smaller, and puts the new one before it.
Of two values the smaller one is the higher priority, and a list without a smaller value is left as it is.

* `flushLoads`            the interrupts that a flush puts into list registers, in order;
* `InOrder`               lowest value first;
* `Inserted`              the new interrupt is in the list, in order and behind its equals;
* `pdlist_inserted`       exactly when that holds;
* `pdlist_inserted_fails` not so for the second of two equal interrupts.
-/

namespace LkHv
namespace Vgic

/-- the interrupts that the loop of `hv_flush_queued_virqs` takes off the list -/
def flushLoads (cfg : VgicConfig) (c : Nat) (v : VcpuId) : List VirqId → Vgic → List VirqId
  | [], _ => []
  | x :: xs, s =>
    let r := s.flushVirq cfg c v x
    let l := if r.2 then flushLoads cfg c v xs r.1 else []
    if (r.1.irqs x).pdNode then l else x :: l

/-- the smallest priority value first -/
def InOrder (s : Vgic) (l : List VirqId) : Prop := l.Pairwise fun t u => (s.irqs t).priority ≤ (s.irqs u).priority

/-- what `insert_into_pdlist` is for -/
structure Inserted (s : Vgic) (x : VirqId) (v : VcpuId) : Prop where
  perm : ((s.insertIntoPdlist x v).pdHead v).Perm (x :: s.pdHead v)
  order : s.InOrder (s.pdHead v) → s.InOrder ((s.insertIntoPdlist x v).pdHead v)
  /-- among equals the order of arrival -/
  fifo : s.InOrder (s.pdHead v) → ∀ p, ((s.insertIntoPdlist x v).pdHead v).filter (fun t => (s.irqs t).priority = p) =
      (s.pdHead v ++ [x]).filter fun t => (s.irqs t).priority = p
  loads : s.InOrder (s.pdHead v) → ∀ cfg c,
    s.InOrder (flushLoads cfg c v ((s.insertIntoPdlist x v).pdHead v) (s.insertIntoPdlist x v))

section
variable {s : Vgic} {x : VirqId} {v : VcpuId}

/-- a flush keeps to the order of the list -/
theorem flushLoads_sublist (cfg : VgicConfig) (c : Nat) (v : VcpuId) (l : List VirqId) (s : Vgic) :
    (flushLoads cfg c v l s).Sublist l := by
  induction l generalizing s with
  | nil => exact List.Sublist.refl _
  | cons x xs ih =>
    have hl : (if (s.flushVirq cfg c v x).2 then flushLoads cfg c v xs (s.flushVirq cfg c v x).1
        else []).Sublist xs := by
      split
      · exact ih _
      · exact List.nil_sublist xs
    rw [flushLoads]
    split
    · exact hl.cons x
    · exact hl.cons_cons x

/-- the list after `insert_into_pdlist` -/
theorem insertIntoPdlist_pdHead (s : Vgic) (x : VirqId) (v : VcpuId) : (s.insertIntoPdlist x v).pdHead v =
      if (s.irqs x).pdNode then s.pdHead v else if s.pdHead v = [] then [x]
      else if ∃ t ∈ s.pdHead v, (s.irqs t).priority < (s.irqs x).priority then
        Links.insertBefore (fun t => (s.irqs t).priority < (s.irqs x).priority) x (s.pdHead v) else s.pdHead v := by
  unfold insertIntoPdlist
  by_cases hn : (s.irqs x).pdNode = true
  · rw [if_pos hn, if_pos hn]
  rw [if_neg hn, if_neg hn]
  dsimp only
  have hp : (s.setIrq x fun r => { r with pdq := true }).pdHead v = s.pdHead v := rfl
  rw [hp]
  by_cases hl : s.pdHead v = []
  · rw [if_pos hl, if_pos hl, linkPd_pdHead, Function.update_self]
  rw [if_neg hl, if_neg hl]
  by_cases hx : ∃ t ∈ s.pdHead v, (s.irqs t).priority < (s.irqs x).priority
  · rw [if_pos hx, if_pos hx, linkPd_pdHead, Function.update_self]
  · rw [if_neg hx, if_neg hx]
    rfl

/-- a list that stays as it is has not got the interrupt -/
theorem not_inserted (h : (s.insertIntoPdlist x v).pdHead v = s.pdHead v) : ¬ Inserted s x v := by
  intro hi
  have := hi.perm.length_eq
  rw [h, List.length_cons] at this
  omega

/-- in a list in order the search ends at its head -/
theorem InOrder.head_lt {t : VirqId} {l : List VirqId} (h : s.InOrder (t :: l))
    (hx : ∃ u ∈ t :: l, (s.irqs u).priority < (s.irqs x).priority) : (s.irqs t).priority < (s.irqs x).priority := by
  obtain ⟨u, hu, hlt⟩ := hx
  rcases List.mem_cons.mp hu with rfl | hu
  · exact hlt
  · exact lt_of_le_of_lt ((List.pairwise_cons.mp h).1 u hu) hlt

/-- **Insertion into the pending list.**  It does what it is for if and only if the interrupt is on no list and the
list is empty, or out of order already and with a smaller value in it. -/
theorem pdlist_inserted (s : Vgic) (x : VirqId) (v : VcpuId) :
    Inserted s x v ↔ (s.irqs x).pdNode = false ∧ (s.pdHead v = [] ∨
      ¬ s.InOrder (s.pdHead v) ∧ ∃ t ∈ s.pdHead v, (s.irqs t).priority < (s.irqs x).priority) := by
  have hpd := insertIntoPdlist_pdHead s x v
  by_cases hn : (s.irqs x).pdNode = true
  · rw [if_pos hn] at hpd
    refine iff_of_false (not_inserted hpd) fun h => ?_
    rw [hn] at h
    cases h.1
  rw [if_neg hn] at hpd
  have hfree : (s.irqs x).pdNode = false := by simpa using hn
  by_cases hl : s.pdHead v = []
  · rw [if_pos hl] at hpd
    refine iff_of_true ⟨?_, fun _ => ?_, fun _ p => ?_, fun _ cfg c => ?_⟩ ⟨hfree, .inl hl⟩
    · rw [hpd, hl]
    · rw [hpd]
      exact List.pairwise_singleton _ _
    · rw [hpd, hl]
      rfl
    · rw [hpd]
      exact (List.pairwise_singleton _ _).sublist (flushLoads_sublist cfg c v [x] _)
  rw [if_neg hl] at hpd
  by_cases hx : ∃ t ∈ s.pdHead v, (s.irqs t).priority < (s.irqs x).priority
  · rw [if_pos hx] at hpd
    by_cases ho : s.InOrder (s.pdHead v)
    · -- the head has a smaller value, and the interrupt is put before it
      refine iff_of_false (fun hi => ?_) fun h => h.2.elim hl fun h => h.1 ho
      obtain ⟨t, l, e⟩ := List.exists_cons_of_ne_nil hl
      have hlt : (s.irqs t).priority < (s.irqs x).priority := by
        rw [e] at ho hx
        exact ho.head_lt hx
      have hord := hi.order ho
      rw [hpd, e, Links.insertBefore, if_pos (by simpa using hlt)] at hord
      have := (List.pairwise_cons.mp hord).1 t (by simp)
      omega
    · refine iff_of_true ⟨?_, fun h => absurd h ho, fun h => absurd h ho, fun h => absurd h ho⟩
        ⟨hfree, .inr ⟨ho, hx⟩⟩
      rw [hpd]
      refine Links.insertBefore_perm x ?_
      obtain ⟨t, ht, hlt⟩ := hx
      exact ⟨t, ht, by simpa using hlt⟩
  · rw [if_neg hx] at hpd
    exact iff_of_false (not_inserted hpd) fun h => h.2.elim hl fun h => hx h.2

end

/-- **Two equal interrupts.**  SGI 2, injected behind SGI 1, is not in the list. -/
theorem pdlist_inserted_fails : ¬ ∀ (cfg : VgicConfig) (s : Vgic), (vgicSys cfg).Reach s →
    ∀ x v, (∀ w, x ∉ s.pdHead w) → Inserted s x v := by
  intro h
  have hr : (vgicSys smallVgicCfg).Reach smallVgic := .init smallVgic_boot
  obtain ⟨s, hs, hp, hx⟩ : ∃ s,
      Machine.exec (vgicStep smallVgicCfg) smallVgic
        [.enable (.priv ⟨0, 0⟩ 1) true, .enable (.priv ⟨0, 0⟩ 2) true, .inject 0 0 (some ⟨0, 0⟩) 1] = some s ∧
      s.pdHead = Function.update (fun _ => []) ⟨0, 0⟩ [.priv ⟨0, 0⟩ 1] ∧
      (s.insertIntoPdlist (.priv ⟨0, 0⟩ 2) ⟨0, 0⟩).pdHead ⟨0, 0⟩ = [.priv ⟨0, 0⟩ 1] :=
    ⟨_, rfl, rfl, rfl⟩
  have hfree : ∀ w, (VirqId.priv ⟨0, 0⟩ 2) ∉ s.pdHead w := by
    intro w
    rw [hp]
    by_cases e : w = ⟨0, 0⟩
    · subst e
      rw [Function.update_self]
      decide
    · rw [Function.update_of_ne e]
      exact List.not_mem_nil
  have hi := h _ s (hr.exec _ hs) (.priv ⟨0, 0⟩ 2) ⟨0, 0⟩ hfree
  have hperm := hi.perm.length_eq
  rw [hx, hp] at hperm
  revert hperm
  decide

end Vgic
end LkHv
