import Mathlib.Algebra.Order.Group.Nat
import Mathlib.Data.List.Range

/-!
# Memories of bytes

A memory is a function from addresses to bytes; integers lie in it with the least byte first.

* `u32At`, `put32`, `bytesAt`    an integer and a row of bytes in a memory;
* `SameOn`                       two memories agree on a range;
* `u32At_put32`, `SameOn.put32`  what a write does inside and outside of its place;
* `putBytes`                     a row of bytes written;
* `putBytes_patch`               a row that is read, changed in its middle and written back.
-/

namespace ByteMemory

/-- the 32-bit integer at an address -/
def u32At (b : Nat → UInt8) (off : Nat) : Nat :=
  (b off).toNat + 2 ^ 8 * (b (off + 1)).toNat + 2 ^ 16 * (b (off + 2)).toNat + 2 ^ 24 * (b (off + 3)).toNat

/-- the bytes of a range -/
def bytesAt (b : Nat → UInt8) (off len : Nat) : List UInt8 := (List.range len).map fun k => b (off + k)

/-- a memory with a 32-bit integer written -/
def put32 (b : Nat → UInt8) (off n : Nat) : Nat → UInt8 := fun i =>
  if off ≤ i ∧ i < off + 4 then UInt8.ofNat (n / 2 ^ (8 * (i - off))) else b i

/-- two memories agree on `[lo, hi)` -/
def SameOn (b b' : Nat → UInt8) (lo hi : Nat) : Prop := ∀ i, lo ≤ i → i < hi → b' i = b i

variable {b b' b'' : Nat → UInt8} {off off' n lo hi len : Nat}

theorem u32At_lt (b : Nat → UInt8) (off : Nat) : u32At b off < 2 ^ 32 := by
  have h : ∀ k, (b k).toNat < 256 := fun k => (b k).toNat_lt
  have h0 := h off
  have h1 := h (off + 1)
  have h2 := h (off + 2)
  have h3 := h (off + 3)
  unfold u32At
  lia

@[simp] theorem bytesAt_length (b : Nat → UInt8) (off len : Nat) : (bytesAt b off len).length = len := by
  rw [bytesAt, List.length_map, List.length_range]

/-! ## agreement -/

theorem SameOn.refl (b : Nat → UInt8) (lo hi : Nat) : SameOn b b lo hi := fun _ _ _ => rfl

theorem SameOn.trans (h : SameOn b b' lo hi) (h' : SameOn b' b'' lo hi) : SameOn b b'' lo hi :=
  fun i h1 h2 => (h' i h1 h2).trans (h i h1 h2)

theorem SameOn.mono {lo' hi' : Nat} (h : SameOn b b' lo hi) (h1 : lo ≤ lo') (h2 : hi' ≤ hi) : SameOn b b' lo' hi' :=
  fun i h3 h4 => h i (h1.trans h3) (h4.trans_le h2)

theorem SameOn.u32At (h : SameOn b b' lo hi) (h1 : lo ≤ off) (h2 : off + 4 ≤ hi) :
    ByteMemory.u32At b' off = ByteMemory.u32At b off := by
  unfold ByteMemory.u32At
  rw [h off h1 (by lia), h (off + 1) (by lia) (by lia), h (off + 2) (by lia) (by lia), h (off + 3) (by lia) (by lia)]

theorem SameOn.bytesAt (h : SameOn b b' lo hi) (h1 : lo ≤ off) (h2 : off + len ≤ hi) :
    ByteMemory.bytesAt b' off len = ByteMemory.bytesAt b off len := by
  apply List.map_congr_left
  intro k hk
  have := List.mem_range.mp hk
  exact h _ (by lia) (by lia)

/-! ## writes -/

theorem u32At_put32 (b : Nat → UInt8) (off : Nat) (h : n < 2 ^ 32) : u32At (put32 b off n) off = n := by
  have hbyte : ∀ k < 4, put32 b off n (off + k) = UInt8.ofNat (n / 2 ^ (8 * k)) := by
    intro k hk
    unfold put32
    rw [if_pos (by omega), Nat.add_sub_cancel_left]
  unfold u32At
  rw [show put32 b off n off = _ from hbyte 0 (by decide), hbyte 1 (by decide), hbyte 2 (by decide),
    hbyte 3 (by decide)]
  simp only [UInt8.toNat_ofNat']
  omega

/-- a write outside of a range -/
theorem SameOn.put32 (b : Nat → UInt8) (n : Nat) (h : off + 4 ≤ lo ∨ hi ≤ off) :
    SameOn b (put32 b off n) lo hi := fun i h1 h2 => if_neg (by lia)

theorem u32At_put32_of_disjoint (b : Nat → UInt8) (n : Nat) (h : off + 4 ≤ off' ∨ off' + 4 ≤ off) :
    u32At (put32 b off n) off' = u32At b off' :=
  (SameOn.put32 b n h).u32At (Nat.le_refl _) (Nat.le_refl _)

/-- writing back what is there -/
theorem put32_u32At (b : Nat → UInt8) (off : Nat) : put32 b off (u32At b off) = b := by
  funext i
  unfold put32
  split
  · rename_i hi
    obtain ⟨k, hk, rfl⟩ : ∃ k < 4, i = off + k := ⟨i - off, by omega, by omega⟩
    have h : ∀ k, (b k).toNat < 256 := fun k => (b k).toNat_lt
    have h0 := h off
    have h1 := h (off + 1)
    have h2 := h (off + 2)
    have h3 := h (off + 3)
    apply UInt8.toNat_inj.mp
    rw [UInt8.toNat_ofNat', Nat.add_sub_cancel_left]
    unfold u32At
    rcases (by omega : k = 0 ∨ k = 1 ∨ k = 2 ∨ k = 3) with rfl | rfl | rfl | rfl
    · show _ = (b off).toNat
      omega
    · omega
    · omega
    · omega
  · rfl

/-- one byte written outside of a range -/
theorem SameOn.update (b : Nat → UInt8) (v : UInt8) (h : off < lo ∨ hi ≤ off) :
    SameOn b (Function.update b off v) lo hi := fun i h1 h2 => Function.update_of_ne (by lia) ..

/-! ## rows -/

/-- a memory with a row of bytes written -/
def putBytes (b : Nat → UInt8) (off : Nat) (l : List UInt8) : Nat → UInt8 := fun i =>
  if off ≤ i then l[i - off]?.getD (b i) else b i

variable {l m r : List UInt8} {k : Nat}

theorem bytesAt_add (b : Nat → UInt8) (off m n : Nat) : bytesAt b off (m + n) = bytesAt b off m ++ bytesAt b (off + m) n := by
  unfold bytesAt
  rw [List.range_add, List.map_append, List.map_map]
  congr 1
  apply List.map_congr_left
  intro k _
  show b (off + (m + k)) = b (off + m + k)
  rw [Nat.add_assoc]

theorem take_bytesAt (b : Nat → UInt8) (off : Nat) (h : k ≤ n) : (bytesAt b off n).take k = bytesAt b off k := by
  obtain ⟨j, rfl⟩ := Nat.exists_eq_add_of_le h
  rw [bytesAt_add, List.take_left' (bytesAt_length b off k)]

theorem drop_bytesAt (b : Nat → UInt8) (off k n : Nat) : (bytesAt b off n).drop k = bytesAt b (off + k) (n - k) := by
  rcases Nat.le_total k n with h | h
  · obtain ⟨j, rfl⟩ := Nat.exists_eq_add_of_le h
    rw [bytesAt_add, List.drop_left' (bytesAt_length b off k), Nat.add_sub_cancel_left]
  · rw [List.drop_of_length_le (by rwa [bytesAt_length]), Nat.sub_eq_zero_of_le h]
    rfl

theorem putBytes_nil (b : Nat → UInt8) (off : Nat) : putBytes b off [] = b := by
  funext i
  unfold putBytes
  split <;> rfl

theorem putBytes_append (b : Nat → UInt8) (off : Nat) (l m : List UInt8) :
    putBytes b off (l ++ m) = putBytes (putBytes b off l) (off + l.length) m := by
  funext i
  unfold putBytes
  by_cases h1 : off + l.length ≤ i
  · rw [if_pos (by omega), if_pos h1, if_pos (by omega), List.getElem?_append_right (by omega), Nat.sub_sub,
      List.getElem?_eq_none (by omega : l.length ≤ i - off)]
    rfl
  · rw [if_neg h1]
    split
    · rw [List.getElem?_append_left (by omega)]
    · rfl

/-- a row written outside of a range -/
theorem SameOn.putBytes (b : Nat → UInt8) (l : List UInt8) (h : off + l.length ≤ lo ∨ hi ≤ off) :
    SameOn b (putBytes b off l) lo hi := by
  intro i h1 h2
  unfold ByteMemory.putBytes
  split
  · rw [List.getElem?_eq_none (by lia)]
    rfl
  · rfl

/-- writing back what is there -/
theorem putBytes_bytesAt (b : Nat → UInt8) (off n : Nat) : putBytes b off (bytesAt b off n) = b := by
  funext i
  unfold putBytes bytesAt
  split
  · rename_i h
    rw [List.getElem?_map]
    by_cases hn : i - off < n
    · rw [List.getElem?_range hn]
      show b (off + (i - off)) = b i
      rw [Nat.add_sub_cancel' h]
    · rw [List.getElem?_eq_none (by rw [List.length_range]; omega)]
      rfl
  · rfl

/-- **Read, changed in the middle and written back**: the middle is written. -/
theorem putBytes_patch (b : Nat → UInt8) (off : Nat) (h : k + l.length ≤ n) :
    putBytes b off ((bytesAt b off n).take k ++ l ++ (bytesAt b off n).drop (k + l.length)) =
      putBytes b (off + k) l := by
  rw [take_bytesAt b off (by omega), drop_bytesAt, putBytes_append, putBytes_append, putBytes_bytesAt, bytesAt_length,
    List.length_append, bytesAt_length]
  have hsame : SameOn b (putBytes b (off + k) l) (off + (k + l.length)) (off + n) := SameOn.putBytes b l (by omega)
  rw [← hsame.bytesAt (Nat.le_refl _) (by omega), putBytes_bytesAt]

end ByteMemory
