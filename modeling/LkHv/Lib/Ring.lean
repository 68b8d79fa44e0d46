import Mathlib.Algebra.Order.Group.Nat
import Mathlib.Data.List.Range

/-!
# Ring buffers

`N` cells of a memory, read round: a queue lies in the ring as the `n` cells from `t` on.

* `slice m t n`      `n` cells in a row;
* `put m t f n`      the memory with `n` cells in a row written;
* `window m N t n`   `n` cells from `t` on, read round the ring of `N` cells;
* `window_add`, `window_take`, `window_drop`, `window_put`   how a window is cut, read and extended;
* `window_succ`, `window_update`   the same for one cell.
-/

namespace Ring
variable {α : Type*}

/-- the `n` cells from `t` on -/
def slice (m : Nat → α) (t n : Nat) : List α := (List.range n).map fun i => m (t + i)

/-- `m` with the first `n` values of `f` written from `t` on -/
def put (m : Nat → α) (t : Nat) (f : Nat → α) (n : Nat) : Nat → α := fun i =>
  if t ≤ i ∧ i < t + n then f (i - t) else m i

/-- the `n` cells from `t` on, round the ring of `N` cells -/
def window (m : Nat → α) (N t n : Nat) : List α := (List.range n).map fun i => m ((t + i) % N)

@[simp] theorem slice_length (m : Nat → α) (t n : Nat) : (slice m t n).length = n := by
  simp [slice]

@[simp] theorem window_length (m : Nat → α) (N t n : Nat) : (window m N t n).length = n := by
  simp [window]

@[simp] theorem slice_zero (m : Nat → α) (t : Nat) : slice m t 0 = [] := rfl

theorem slice_add (m : Nat → α) (t a b : Nat) : slice m t (a + b) = slice m t a ++ slice m (t + a) b := by
  unfold slice
  rw [List.range_add, List.map_append, List.map_map]
  congr 1
  apply List.map_congr_left
  intro i _
  show m (t + (a + i)) = m (t + a + i)
  rw [Nat.add_assoc]

theorem slice_congr {m m' : Nat → α} {t t' n : Nat} (h : ∀ i < n, m (t + i) = m' (t' + i)) :
    slice m t n = slice m' t' n :=
  List.map_congr_left fun i hi => h i (List.mem_range.mp hi)

theorem slice_take (m : Nat → α) (t a n : Nat) : (slice m t n).take a = slice m t (min a n) := by
  rcases Nat.le_total a n with h | h
  · obtain ⟨b, rfl⟩ := Nat.exists_eq_add_of_le h
    rw [slice_add, List.take_left' (slice_length m t a), Nat.min_eq_left h]
  · rw [List.take_of_length_le (by rw [slice_length]; exact h), Nat.min_eq_right h]

/-- what was put is read back -/
theorem slice_put (m : Nat → α) (t : Nat) (f : Nat → α) (n : Nat) : slice (put m t f n) t n = slice f 0 n := by
  apply slice_congr
  intro i hi
  rw [put, if_pos (by omega)]
  congr 1
  omega

theorem slice_put_before (m : Nat → α) {t k : Nat} (f : Nat → α) (n a : Nat) (h : k + a ≤ t) :
    slice (put m t f n) k a = slice m k a :=
  slice_congr fun i hi => if_neg (by omega)

theorem window_add (m : Nat → α) (N t a b : Nat) :
    window m N t (a + b) = window m N t a ++ window m N ((t + a) % N) b := by
  unfold window
  rw [List.range_add, List.map_append, List.map_map]
  congr 1
  apply List.map_congr_left
  intro i _
  show m ((t + (a + i)) % N) = m (((t + a) % N + i) % N)
  rw [Nat.mod_add_mod, Nat.add_assoc]

theorem window_congr {m m' : Nat → α} {N t n : Nat} (h : ∀ i < n, m ((t + i) % N) = m' ((t + i) % N)) :
    window m N t n = window m' N t n :=
  List.map_congr_left fun i hi => h i (List.mem_range.mp hi)

/-- a window that does not reach the end of the ring -/
theorem window_slice (m : Nat → α) {N t n : Nat} (h : t + n ≤ N) : window m N t n = slice m t n := by
  apply List.map_congr_left
  intro i hi
  rw [Nat.mod_eq_of_lt (by have := List.mem_range.mp hi; omega)]

theorem window_take (m : Nat → α) (N t : Nat) {a n : Nat} (h : a ≤ n) : (window m N t n).take a = window m N t a := by
  obtain ⟨b, rfl⟩ := Nat.exists_eq_add_of_le h
  rw [window_add, List.take_left' (window_length m N t a)]

theorem window_drop (m : Nat → α) (N t : Nat) {a n : Nat} (h : a ≤ n) :
    (window m N t n).drop a = window m N ((t + a) % N) (n - a) := by
  obtain ⟨b, rfl⟩ := Nat.exists_eq_add_of_le h
  rw [window_add, List.drop_left' (window_length m N t a), Nat.add_sub_cancel_left]

/-- two places of the ring less than a turn apart are different -/
theorem mod_ne {N t i j : Nat} (hi : i < j) (hj : j < i + N) : (t + i) % N ≠ (t + j) % N := by
  intro h
  have h1 := Nat.div_add_mod (t + i) N
  have h2 := Nat.div_add_mod (t + j) N
  rw [h] at h1
  have h3 : N * ((t + j) / N - (t + i) / N) = j - i := by
    rw [Nat.mul_sub]
    lia
  rcases Nat.eq_zero_or_pos ((t + j) / N - (t + i) / N) with h4 | h4
  · rw [h4] at h3
    lia
  · have := Nat.mul_le_mul_left N h4
    lia

/-- **Writing behind a window extends it.** -/
theorem window_put (m : Nat → α) (f : Nat → α) {N t n l : Nat} (hl : (t + n) % N + l ≤ N) (hn : n + l ≤ N) :
    window (put m ((t + n) % N) f l) N t (n + l) = window m N t n ++ slice f 0 l := by
  rw [window_add]
  congr 1
  · apply window_congr
    intro i hi
    apply if_neg
    rintro ⟨h1, h2⟩
    -- the written cells are the next `l` round the ring
    have h3 : (t + i) % N = (t + (n + ((t + i) % N - (t + n) % N))) % N := by
      rw [← Nat.add_assoc, ← Nat.mod_add_mod (t + n), Nat.add_sub_cancel' h1, Nat.mod_mod]
    exact mod_ne (by omega) (by omega) h3
  · rw [window_slice _ hl, slice_put]

theorem window_succ (m : Nat → α) (N t n : Nat) (h : t < N) :
    window m N t (n + 1) = m t :: window m N ((t + 1) % N) n := by
  rw [Nat.add_comm n 1, window_add]
  unfold window
  rw [List.range_one, List.map_singleton, Nat.add_zero, Nat.mod_eq_of_lt h]
  rfl

/-- one cell written behind a window -/
theorem window_update (m : Nat → α) (a : α) {N t n : Nat} (hn : n < N) :
    window (Function.update m ((t + n) % N) a) N t (n + 1) = window m N t n ++ [a] := by
  have hlt : (t + n) % N < N := Nat.mod_lt _ (by lia)
  have hp : Function.update m ((t + n) % N) a = put m ((t + n) % N) (fun _ => a) 1 := by
    funext i
    unfold put
    by_cases e : i = (t + n) % N
    · rw [e, Function.update_self, if_pos (by lia)]
    · rw [Function.update_of_ne e, if_neg (by lia)]
  rw [hp, window_put m _ (by lia) (by lia)]
  rfl

end Ring
