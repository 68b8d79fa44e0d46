import Mathlib.Algebra.GroupWithZero.Nat
import Mathlib.Algebra.Order.Group.Nat

/-!
# Sums in one's complement

In one's complement a carry out of the top bit comes round and is added at the bottom.  With words up to
`m = 2 ^ w - 1` that is addition modulo `m`, where `0` and `m` stand for the same residue and only a sum of zeros
is `0`.

* `add`, `fold`     the end-around carry, and a number cut down to one word by it;
* `add_fold`        `fold` takes sums to sums;
* `foldl_add`       a row of words added up one by one;
* `fold_eq_iff`     when two numbers fold to the same word.
-/

namespace LkHv
namespace OnesSum

/-- `x + y` with the carry added at the bottom -/
def add (m x y : Nat) : Nat := if m < x + y then x + y - m else x + y

/-- the word that `n` leaves when all its carries have come round -/
def fold (m n : Nat) : Nat := if n = 0 then 0 else (n - 1) % m + 1

variable {m n a b : Nat}

theorem fold_pos (h : 0 < n) : 0 < fold m n := by
  rw [fold, if_neg (by omega)]
  omega

theorem fold_le (hm : 0 < m) (n : Nat) : fold m n ≤ m := by
  have h := Nat.mod_lt (n - 1) hm
  unfold fold
  split <;> omega

theorem fold_of_le (h : n ≤ m) : fold m n = n := by
  unfold fold
  split
  · omega
  · rw [Nat.mod_eq_of_lt (by omega)]
    omega

theorem fold_mod (m n : Nat) : fold m n % m = n % m := by
  unfold fold
  split
  · rename_i h
    rw [h]
  · rw [Nat.mod_add_mod, Nat.sub_add_cancel (by omega)]

/-- words differ when they leave different residues, or when one of them is zero -/
theorem eq_of_mod (hx : a ≤ m) (hy : b ≤ m) (h : a % m = b % m) (h0 : a = 0 ↔ b = 0) : a = b := by
  rcases Nat.lt_or_ge a m with ha | ha <;> rcases Nat.lt_or_ge b m with hb | hb
  · rwa [Nat.mod_eq_of_lt ha, Nat.mod_eq_of_lt hb] at h
  · obtain rfl : b = m := by omega
    rw [Nat.mod_eq_of_lt ha, Nat.mod_self] at h
    omega
  · obtain rfl : a = m := by omega
    rw [Nat.mod_eq_of_lt hb, Nat.mod_self] at h
    omega
  · omega

theorem fold_eq_zero : fold m n = 0 ↔ n = 0 := by
  constructor
  · intro h
    rcases Nat.eq_zero_or_pos n with h0 | h0
    · exact h0
    · have := fold_pos (m := m) h0
      omega
  · rintro rfl
    rfl

theorem fold_eq_iff (hm : 0 < m) : fold m a = fold m b ↔ a % m = b % m ∧ (a = 0 ↔ b = 0) := by
  constructor
  · intro h
    refine ⟨by rw [← fold_mod m a, ← fold_mod m b, h], ?_⟩
    rw [← fold_eq_zero (m := m) (n := a), ← fold_eq_zero (m := m) (n := b), h]
  · rintro ⟨h, h0⟩
    refine eq_of_mod (fold_le hm a) (fold_le hm b) ?_ ?_
    · rw [fold_mod, fold_mod, h]
    · rw [fold_eq_zero, fold_eq_zero, h0]

theorem add_le (ha : a ≤ m) (hb : b ≤ m) : add m a b ≤ m := by
  unfold add
  split <;> omega

/-- **`fold` takes sums to sums.** -/
theorem add_fold (hm : 0 < m) (a b : Nat) : add m (fold m a) (fold m b) = fold m (a + b) := by
  have h1 := fold_le hm a
  have h2 := fold_le hm b
  refine eq_of_mod (add_le h1 h2) (fold_le hm _) ?_ ?_
  · have h : add m (fold m a) (fold m b) % m = (fold m a + fold m b) % m := by
      unfold add
      split
      · rw [← Nat.add_mod_right (fold m a + fold m b - m), Nat.sub_add_cancel (by omega)]
      · rfl
    rw [h, fold_mod, Nat.add_mod, fold_mod, fold_mod, ← Nat.add_mod]
  · have h3 : add m (fold m a) (fold m b) = 0 ↔ fold m a = 0 ∧ fold m b = 0 := by
      unfold add
      split <;> omega
    rw [h3, fold_eq_zero, fold_eq_zero, fold_eq_zero]
    omega

/-- **A row of words**, added one by one. -/
theorem foldl_add (hm : 0 < m) : ∀ (ws : List Nat) (n : Nat), (∀ w ∈ ws, w ≤ m) →
    ws.foldl (add m) (fold m n) = fold m (n + ws.sum)
  | [], n, _ => by rw [List.sum_nil, Nat.add_zero, List.foldl_nil]
  | w :: ws, n, h => by
    have hw : w = fold m w := (fold_of_le (h w List.mem_cons_self)).symm
    rw [List.foldl_cons, List.sum_cons]
    conv_lhs => rw [hw]
    rw [add_fold hm, foldl_add hm ws _ fun v hv => h v (List.mem_cons_of_mem _ hv), Nat.add_assoc]

end OnesSum
end LkHv
