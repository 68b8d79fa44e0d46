import Mathlib.Data.List.Basic

/-!
# A list cut into blocks of one length

The last block is the one that is shorter, and it may be empty: a list whose length is a multiple of the block length
has an empty block at its end.

* `block`, `blockCount`     the blocks, and how many there are;
* `block_length_eq_iff`     a block has the full length if and only if it is not the last one;
* `flatten_blocks`          the first blocks one after the other are the start of the list;
* `flatten_blocks_all`      all of them are the list.
-/

namespace LkHv.Blocks
variable {α : Type*} {b k : Nat} {l : List α}

/-- block `k` of the list -/
def block (b : Nat) (l : List α) (k : Nat) : List α := (l.drop (b * k)).take b

def blockCount (b : Nat) (l : List α) : Nat := l.length / b + 1

/-- the first `n` blocks -/
def blocks (b : Nat) (l : List α) (n : Nat) : List (List α) := (List.range n).map (block b l)

theorem blocks_succ (b : Nat) (l : List α) (n : Nat) : blocks b l (n + 1) = blocks b l n ++ [block b l n] := by
  unfold blocks
  rw [List.range_succ, List.map_append, List.map_singleton]

theorem blocks_length (b : Nat) (l : List α) (n : Nat) : (blocks b l n).length = n := by
  unfold blocks
  rw [List.length_map, List.length_range]

theorem block_length (b : Nat) (l : List α) (k : Nat) : (block b l k).length = min b (l.length - b * k) := by
  unfold block
  rw [List.length_take, List.length_drop]

theorem block_length_eq_iff (hb : 0 < b) : (block b l k).length = b ↔ k + 1 < blockCount b l := by
  have h : k + 1 ≤ l.length / b ↔ (k + 1) * b ≤ l.length := Nat.le_div_iff_mul_le hb
  rw [Nat.add_mul, Nat.one_mul, Nat.mul_comm k b] at h
  rw [block_length]
  unfold blockCount
  generalize b * k = m at h ⊢
  omega

theorem flatten_blocks (b : Nat) (l : List α) (n : Nat) : (blocks b l n).flatten = l.take (b * n) := by
  induction n with
  | zero => rfl
  | succ n ih =>
    rw [blocks_succ, List.flatten_append, ih, List.flatten_singleton, Nat.mul_succ, List.take_add]
    rfl

theorem flatten_blocks_all (hb : 0 < b) (l : List α) : (blocks b l (blockCount b l)).flatten = l := by
  rw [flatten_blocks]
  apply List.take_of_length_le
  unfold blockCount
  have h := Nat.lt_mul_div_succ l.length hb
  omega

end LkHv.Blocks
