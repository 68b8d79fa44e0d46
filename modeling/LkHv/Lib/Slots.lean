import Mathlib.Data.List.Basic
import Mathlib.Data.List.Count

/-!
# A table of slots

A slot holds a value or nothing.

* `held f n`          what the first `n` slots hold;
* `held_count_set`    how often a value is there after a slot was written.
-/

namespace LkHv.Slots
variable {α : Type*} {f : Nat → Option α} {n i : Nat}

/-- what the first slots hold -/
def held (f : Nat → Option α) (n : Nat) : List α := (List.range n).filterMap f

theorem held_succ (f : Nat → Option α) (n : Nat) : held f (n + 1) = held f n ++ (f n).toList := by
  unfold held
  rw [List.range_succ, List.filterMap_append]
  cases h : f n <;> simp [h]

/-- a slot that is not among the first ones -/
theorem held_set_ge (f : Nat → Option α) (x : Option α) (h : n ≤ i) : held (Function.update f i x) n = held f n := by
  apply List.filterMap_congr
  intro j hj
  have hne : j ≠ i := by
    have hlt := List.mem_range.mp hj
    omega
  exact Function.update_of_ne hne ..

/-- a slot written -/
theorem held_count_set [DecidableEq α] (f : Nat → Option α) (x : Option α) (a : α) (h : i < n) :
    (held (Function.update f i x) n).count a + (f i).toList.count a = (held f n).count a + x.toList.count a := by
  induction n with
  | zero => cases h
  | succ n ih =>
    rw [held_succ, held_succ, List.count_append, List.count_append]
    by_cases e : i = n
    · subst e
      rw [held_set_ge f x (Nat.le_refl i), Function.update_self]
      lia
    · have hne : n ≠ i := fun h => e h.symm
      rw [Function.update_of_ne hne]
      have hih := ih (by lia)
      lia

theorem held_none (n : Nat) : held (fun _ => (none : Option α)) n = [] := by
  unfold held
  rw [List.filterMap_eq_nil_iff]
  exact fun _ _ => rfl

end LkHv.Slots
