import Mathlib.Data.List.Basic

/-!
# First fit

The search for `n` cells in a row that are not used, which goes on behind the cell that spoils a row.

* `firstUsed`     the first used one of `n` cells;
* `firstFit`      the search from `i` on, for rows that start at `last` or before;
* `firstFit_some`, `firstFit_none`   what it finds, and that it finds a row if there is one.
-/

namespace FirstFit

/-- the first used one of the `n` cells from `i + j` on, counted from `i` -/
def firstUsed (used : Nat → Bool) (i : Nat) : Nat → Nat → Option Nat
  | 0, _ => none
  | n + 1, j => if used (i + j) then some j else firstUsed used i n (j + 1)

variable {used : Nat → Bool} {i n j k last : Nat}

theorem firstUsed_none : firstUsed used i n j = none → ∀ l, j ≤ l → l < j + n → used (i + l) = false := by
  induction n generalizing j with
  | zero =>
    intro _ l h1 h2
    lia
  | succ n ih =>
    unfold firstUsed
    split
    · intro h
      cases h
    · rename_i hu
      intro h l h1 h2
      obtain rfl | hlt : l = j ∨ j + 1 ≤ l := by lia
      · exact Bool.not_eq_true _ ▸ hu
      · exact ih h l hlt (by lia)

theorem firstUsed_some : firstUsed used i n j = some k →
    j ≤ k ∧ k < j + n ∧ used (i + k) = true ∧ ∀ l, j ≤ l → l < k → used (i + l) = false := by
  induction n generalizing j with
  | zero =>
    intro h
    cases h
  | succ n ih =>
    unfold firstUsed
    split
    · rename_i hu
      intro h
      cases h
      exact ⟨Nat.le_refl _, by lia, hu, fun l h1 h2 => by lia⟩
    · rename_i hu
      intro h
      obtain ⟨h1, h2, h3, h4⟩ := ih h
      refine ⟨by lia, by lia, h3, fun l hl1 hl2 => ?_⟩
      obtain rfl | hlt : l = j ∨ j + 1 ≤ l := by lia
      · exact Bool.not_eq_true _ ▸ hu
      · exact h4 l hlt hl2

/-- the search; behind a used cell it goes on with the next one -/
def firstFit (used : Nat → Bool) (n last i : Nat) : Option Nat :=
  if i ≤ last then
    match firstUsed used i n 0 with
    | none => some i
    | some j => firstFit used n last (i + j + 1)
  else none
termination_by last + 1 - i

theorem firstFit_some : ∀ {i : Nat}, firstFit used n last i = some k →
    i ≤ k ∧ k ≤ last ∧ ∀ l, l < n → used (k + l) = false := by
  intro i
  induction i using firstFit.induct used n last with
  | case1 i hi hnone =>
    rw [firstFit, if_pos hi, hnone]
    intro h
    cases h
    exact ⟨Nat.le_refl _, hi, fun l hl => firstUsed_none hnone l (Nat.zero_le l) (by omega)⟩
  | case2 i hi j hsome ih =>
    rw [firstFit, if_pos hi, hsome]
    intro h
    obtain ⟨h1, h2, h3⟩ := ih h
    exact ⟨by omega, h2, h3⟩
  | case3 i hi =>
    rw [firstFit, if_neg hi]
    intro h
    cases h

/-- a row that starts at `k` is not passed over: the cell that spoils the row at `i` is before `k` -/
theorem firstFit_none : ∀ {i : Nat}, firstFit used n last i = none →
    ∀ k, i ≤ k → k ≤ last → ∃ l < n, used (k + l) = true := by
  intro i
  induction i using firstFit.induct used n last with
  | case1 i hi hnone =>
    rw [firstFit, if_pos hi, hnone]
    intro h
    cases h
  | case2 i hi j hsome ih =>
    rw [firstFit, if_pos hi, hsome]
    intro h k h1 h2
    obtain ⟨-, hj, hu, -⟩ := firstUsed_some hsome
    by_cases hk : i + j + 1 ≤ k
    · exact ih h k hk h2
    · refine ⟨i + j - k, by omega, ?_⟩
      rw [show k + (i + j - k) = i + j by omega]
      exact hu
  | case3 i hi =>
    intro _ k h1 h2
    omega

end FirstFit
