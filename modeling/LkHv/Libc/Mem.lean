import LkHv.Kernel.Word

/-!
# Memory routines of the C library (`lib/libc/string`)

`memmove`, `memcpy` and `memset` copy a head by bytes up to a word boundary, then words, then a tail by bytes.  A memory
keeps the addresses that were written.  A word is the row of its eight bytes in the order of memory.

* `memmove`, `memcpy`, `memset`   the source's;
* `Copied`            bytes of a range hold what their source held at the start, all others are as they were;
* `moveUp_copied`, `moveDown_copied`   the loops, as long as the source is ahead of them;
* `ahead_of_lt`, `behind_of_lt`        the comparison of the pointers says that it is;
* `memory_routines_right`   the routines are the plain ones.
-/

namespace LkHv.Libc

/-- the bytes of a memory, and the addresses that were written -/
structure Mem where
  byte : BitVec 64 → UInt8
  written : List (BitVec 64)

/-- `sizeof(word)` -/
def lsize : Nat := 8

/-- `lmask` -/
def lmask : BitVec 64 := 7

namespace Mem

/-- the value at an address: its bytes -/
def load (m : Mem) (a : BitVec 64) : Nat → UInt8 := fun i => m.byte (a + BitVec.ofNat 64 i)

/-- a value of `size` bytes stored -/
def store (m : Mem) (a : BitVec 64) (size : Nat) (v : Nat → UInt8) : Mem where
  byte := fun x => if (x - a).toNat < size then v (x - a).toNat else m.byte x
  written := m.written ++ (List.range size).map fun i => a + BitVec.ofNat 64 i

end Mem

/-- a loop `*d = *s` over `len` values of `size` bytes, the pointers going up -/
def moveUp (size : Nat) : Nat → Mem × BitVec 64 × BitVec 64 → Mem × BitVec 64 × BitVec 64
  | 0, x => x
  | len + 1, (m, d, s) =>
    moveUp size len (m.store d size (m.load s), d + BitVec.ofNat 64 size, s + BitVec.ofNat 64 size)

/-- the same loop, the pointers going down first -/
def moveDown (size : Nat) : Nat → Mem × BitVec 64 × BitVec 64 → Mem × BitVec 64 × BitVec 64
  | 0, x => x
  | len + 1, (m, d, s) =>
    let d := d - BitVec.ofNat 64 size
    let s := s - BitVec.ofNat 64 size
    moveDown size len (m.store d size (m.load s), d, s)

/-- the loop counters are `int` -/
def intLen (n : Int) : Nat := (wrap32 n).toNat

/-- `count -= len`, `len` an `int` -/
def lessInt (count : Nat) (len : Int) : Nat := ((count - wrap32 len) % 2 ^ 64).toNat

/-- the bytes up to a word boundary, or all of them -/
def headUp (d s : BitVec 64) (count : Nat) : Int :=
  if (d ||| s) &&& lmask ≠ 0 then
    if (d ^^^ s) &&& lmask ≠ 0 ∨ count < lsize then count else lsize - (d &&& lmask).toNat
  else 0

/-- the part of `memmove` and `memcpy` that goes up -/
def copyUp (m : Mem) (d s : BitVec 64) (count : Nat) : Mem × BitVec 64 × BitVec 64 :=
  let len := headUp d s count
  let count := lessInt count len
  let x := moveUp 1 (intLen len) (m, d, s)
  let x := moveUp lsize (intLen ((count / lsize : Nat) : Int)) x
  moveUp 1 (intLen ((count % lsize : Nat) : Int)) x

/-- the bytes down to a word boundary, or all of them; `d` and `s` are the ends -/
def headDown (d s : BitVec 64) (count : Nat) : Int :=
  if (d ||| s) &&& lmask ≠ 0 then
    if (d ^^^ s) &&& lmask ≠ 0 ∨ count ≤ lsize then count else (d &&& lmask).toNat
  else 0

/-- the part of `memmove` that goes down -/
def copyDown (m : Mem) (d s : BitVec 64) (count : Nat) : Mem × BitVec 64 × BitVec 64 :=
  let d := d + BitVec.ofNat 64 count
  let s := s + BitVec.ofNat 64 count
  let len := headDown d s count
  let count := lessInt count len
  let x := moveDown 1 (intLen len) (m, d, s)
  let x := moveDown lsize (intLen ((count / lsize : Nat) : Int)) x
  moveDown 1 (intLen ((count % lsize : Nat) : Int)) x

def memmove (m : Mem) (dest src : BitVec 64) (count : Nat) : Mem :=
  if count = 0 ∨ dest = src then m
  else if dest.slt src then (copyUp m dest src count).1
  else (copyDown m dest src count).1

def memcpy (m : Mem) (dest src : BitVec 64) (count : Nat) : Mem :=
  if count = 0 ∨ dest = src then m else (copyUp m dest src count).1

/-- `for ( ; len > 0; len-- )` with a value of `size` bytes -/
def fill (size : Nat) (v : Nat → UInt8) : Nat → Mem × BitVec 64 → Mem × BitVec 64
  | 0, x => x
  | len + 1, (m, xs) => fill size v len (m.store xs size v, xs + BitVec.ofNat 64 size)

/-- `c` in all eight bytes of a `size_t` -/
def repeatByte (c : BitVec 32) : BitVec 64 :=
  let cc : BitVec 64 := c.signExtend 64 &&& 0xff
  let cc := cc ||| (cc <<< 8)
  let cc := cc ||| (cc <<< 16)
  cc ||| (cc <<< 32)

/-- the bytes of a `size_t`, the least one first -/
def wordBytes (w : BitVec 64) : Nat → UInt8 := fun i => .ofBitVec (w.extractLsb' (8 * i) 8)

/-- `(char)c` -/
def charOf (c : BitVec 32) : UInt8 := .ofBitVec (c.extractLsb' 0 8)

def memset (m : Mem) (s : BitVec 64) (c : BitVec 32) (count : Nat) : Mem :=
  let len := ((-s) &&& (7 : BitVec 64)).toNat
  if count > len then
    let count := count - len
    let x := fill 1 (fun _ => charOf c) len (m, s)
    let x := fill 8 (wordBytes (repeatByte c)) (count / 8) x
    (fill 1 (fun _ => charOf c) (count % 8) x).1
  else (fill 1 (fun _ => charOf c) count (m, s)).1

/-! ## what is claimed -/

/-- the range `n` bytes from `a` on stays in one half of the address space -/
def InHalf (a : BitVec 64) (n : Nat) : Prop := a.toNat + n ≤ 2 ^ 63 ∨ 2 ^ 63 ≤ a.toNat ∧ a.toNat + n ≤ 2 ^ 64

/-- a copy by way of a buffer -/
def bufferedCopy (b : BitVec 64 → UInt8) (dest src : BitVec 64) (count : Nat) : BitVec 64 → UInt8 :=
  let buf := fun i : Nat => b (src + BitVec.ofNat 64 i)
  fun x => if (x - dest).toNat < count then buf (x - dest).toNat else b x

/-- what was written since `m` lies in the range -/
def WritesIn (m m' : Mem) (a : BitVec 64) (n : Nat) : Prop :=
  ∃ w, m'.written = m.written ++ w ∧ ∀ x ∈ w, (x - a).toNat < n

/-- no byte belongs to both ranges -/
def Apart (a b : BitVec 64) (n : Nat) : Prop := ∀ x : BitVec 64, (x - a).toNat < n → ¬ (x - b).toNat < n

/-! ## offsets -/

section
variable {x a d s : BitVec 64} {k n size lo hi : Nat}

theorem sub_add_lt (h : k + size ≤ 2 ^ 64) :
    (x - (d + BitVec.ofNat 64 k)).toNat < size ↔ k ≤ (x - d).toNat ∧ (x - d).toNat < k + size := by
  rw [BitVec.toNat_sub, BitVec.toNat_sub, BitVec.toNat_add, BitVec.toNat_ofNat]
  have h1 := x.isLt
  have h2 := d.isLt
  omega

theorem add_sub_add (x d s : BitVec 64) (k : Nat) :
    s + BitVec.ofNat 64 k + BitVec.ofNat 64 (x - (d + BitVec.ofNat 64 k)).toNat = s + (x - d) := by
  rw [BitVec.ofNat_toNat, BitVec.setWidth_eq, BitVec.add_assoc]
  congr 1
  bv_omega

theorem ofNat_sub_toNat (h : k < 2 ^ 64) : (d + BitVec.ofNat 64 k - d).toNat = k := by
  rw [BitVec.add_comm, BitVec.add_sub_cancel, BitVec.toNat_ofNat, Nat.mod_eq_of_lt h]

theorem WritesIn.store {m₀ m : Mem} (h : WritesIn m₀ m d n) (hs : k + size ≤ n) (hn : n ≤ 2 ^ 64)
    (v : Nat → UInt8) : WritesIn m₀ (m.store (d + BitVec.ofNat 64 k) size v) d n := by
  obtain ⟨w, hw, hin⟩ := h
  refine ⟨w ++ (List.range size).map fun i => d + BitVec.ofNat 64 k + BitVec.ofNat 64 i, ?_, ?_⟩
  · show m.written ++ _ = _
    rw [hw, List.append_assoc]
  · intro x hx
    rcases List.mem_append.1 hx with hx | hx
    · exact hin x hx
    · obtain ⟨i, hi, rfl⟩ := List.mem_map.1 hx
      have hi := List.mem_range.1 hi
      rw [BitVec.add_assoc, ← BitVec.ofNat_add, ofNat_sub_toNat (by omega)]
      omega

/-! ## the loops of a copy -/

/-- the bytes from `lo` to `hi` of the destination are those of the source at the start -/
structure Copied (m₀ : Mem) (d s : BitVec 64) (n lo hi : Nat) (m : Mem) : Prop where
  byte : ∀ x, m.byte x = if lo ≤ (x - d).toNat ∧ (x - d).toNat < hi then m₀.byte (s + (x - d)) else m₀.byte x
  writes : WritesIn m₀ m d n

theorem Copied.start (m₀ : Mem) (d s : BitVec 64) (n k : Nat) : Copied m₀ d s n k k m₀ := by
  refine ⟨?_, [], (List.append_nil _).symm, fun x hx => (by cases hx)⟩
  intro x
  rw [if_neg (by omega)]

/-- a value stored next to the bytes that are there, as the source was at the start -/
theorem Copied.store (k size : Nat) {m₀ m : Mem} (h : Copied m₀ d s n lo hi m) (hs : k + size ≤ n) (hn : n ≤ 2 ^ 64)
    (hk : k = hi ∧ lo ≤ hi ∨ k + size = lo ∧ lo ≤ hi)
    (hfresh : ∀ x : BitVec 64, k ≤ (x - d).toNat → (x - d).toNat < k + size →
      m.byte (s + (x - d)) = m₀.byte (s + (x - d))) : Copied m₀ d s n (min lo k) (max hi (k + size))
      (m.store (d + BitVec.ofNat 64 k) size (m.load (s + BitVec.ofNat 64 k))) := by
  constructor
  · intro x
    show (if (x - (d + BitVec.ofNat 64 k)).toNat < size then
      m.byte (s + BitVec.ofNat 64 k + BitVec.ofNat 64 (x - (d + BitVec.ofNat 64 k)).toNat) else m.byte x) = _
    by_cases hx : k ≤ (x - d).toNat ∧ (x - d).toNat < k + size
    · rw [if_pos ((sub_add_lt (by omega)).2 hx), add_sub_add, hfresh x hx.1 hx.2, if_pos (by omega)]
    · rw [if_neg (fun hlt => hx ((sub_add_lt (by omega)).1 hlt)), h.byte x]
      by_cases ho : lo ≤ (x - d).toNat ∧ (x - d).toNat < hi
      · rw [if_pos ho, if_pos (by omega)]
      · rw [if_neg ho, if_neg (by omega)]
  · exact h.writes.store hs hn _

/-- going up the source is ahead of what has been written -/
def Ahead (d s : BitVec 64) (n : Nat) : Prop := (s - d).toNat + n ≤ 2 ^ 64

/-- going down it is behind -/
def Behind (d s : BitVec 64) (n : Nat) : Prop := (d - s).toNat + n ≤ 2 ^ 64 ∧ d ≠ s

theorem moveUp_copied (size : Nat) {m₀ : Mem} (hn : n ≤ 2 ^ 64) (ha : Ahead d s n) : ∀ (len : Nat) {m : Mem} {k : Nat},
    Copied m₀ d s n 0 k m → k + size * len ≤ n →
    ∃ m', moveUp size len (m, d + BitVec.ofNat 64 k, s + BitVec.ofNat 64 k) =
      (m', d + BitVec.ofNat 64 (k + size * len), s + BitVec.ofNat 64 (k + size * len)) ∧
      Copied m₀ d s n 0 (k + size * len) m'
  | 0, m, k, h, _ => ⟨m, rfl, h⟩
  | len + 1, m, k, h, hle => by
    have hlen : k + size * (len + 1) = k + size + size * len := by
      rw [Nat.mul_succ]
      omega
    have hstep := h.store k size (by rw [hlen] at hle; omega) hn (.inl ⟨rfl, Nat.zero_le _⟩) (by
      intro x h1 h2
      rw [h.byte, if_neg]
      -- what is read lies ahead of the bytes that were written
      rintro ⟨-, h3⟩
      unfold Ahead at ha
      bv_omega)
    rw [Nat.zero_min, Nat.max_eq_right (by omega)] at hstep
    obtain ⟨m', h1, h2⟩ := moveUp_copied size hn ha len hstep (by omega)
    refine ⟨m', ?_, by rw [hlen]; exact h2⟩
    rw [moveUp, BitVec.add_assoc, BitVec.add_assoc, ← BitVec.ofNat_add, h1, hlen]

theorem add_ofNat_sub (d : BitVec 64) (h : size ≤ k) :
    d + BitVec.ofNat 64 k - BitVec.ofNat 64 size = d + BitVec.ofNat 64 (k - size) := by
  obtain ⟨j, rfl⟩ : ∃ j, k = j + size := ⟨k - size, by omega⟩
  rw [Nat.add_sub_cancel, BitVec.ofNat_add, ← BitVec.add_assoc, BitVec.add_sub_cancel]

theorem moveDown_copied (size : Nat) {m₀ : Mem} (hn : n ≤ 2 ^ 64) (hb : Behind d s n) : ∀ (len : Nat) {m : Mem} {k : Nat},
    Copied m₀ d s n k n m → size * len ≤ k → k ≤ n →
    ∃ m', moveDown size len (m, d + BitVec.ofNat 64 k, s + BitVec.ofNat 64 k) =
      (m', d + BitVec.ofNat 64 (k - size * len), s + BitVec.ofNat 64 (k - size * len)) ∧
      Copied m₀ d s n (k - size * len) n m'
  | 0, m, k, h, _, _ => ⟨m, rfl, h⟩
  | len + 1, m, k, h, hle, hk => by
    rw [Nat.mul_succ] at hle
    have hlen : k - size * (len + 1) = k - size - size * len := by
      rw [Nat.mul_succ]
      omega
    have hstep := h.store (k - size) size (by omega) hn (.inr ⟨by omega, hk⟩) (by
      intro x h1 h2
      rw [h.byte, if_neg]
      -- what is read lies behind the bytes that were written
      rintro ⟨h3, h4⟩
      obtain ⟨hb1, hb2⟩ := hb
      bv_omega)
    rw [Nat.min_eq_right (by omega), Nat.max_eq_left (by omega)] at hstep
    obtain ⟨m', h1, h2⟩ := moveDown_copied size hn hb len hstep (by omega) (by omega)
    refine ⟨m', ?_, by rw [hlen]; exact h2⟩
    rw [moveDown, add_ofNat_sub d (by omega), add_ofNat_sub s (by omega), h1, hlen]

/-! ## the routines -/

theorem intLen_of_lt (h : k < 2 ^ 31) : intLen (k : Int) = k := by
  rw [intLen, wrap32_of_range (by omega) (by omega), Int.toNat_natCast]

theorem lessInt_of_le {len : Int} (h0 : 0 ≤ len) (h : len ≤ k) (hk : k < 2 ^ 31) : lessInt k len = k - len.toNat := by
  rw [lessInt, wrap32_of_range (by omega) (by omega)]
  omega

theorem and_lmask_le (a : BitVec 64) : (a &&& lmask).toNat ≤ 7 := by
  rw [BitVec.toNat_and]
  exact Nat.and_le_right

/-- what a whole copy leaves -/
theorem Copied.buffered {m₀ m : Mem} (h : Copied m₀ d s n 0 n m) :
    m.byte = bufferedCopy m₀.byte d s n ∧ WritesIn m₀ m d n := by
  refine ⟨?_, h.writes⟩
  funext x
  rw [h.byte x, bufferedCopy]
  dsimp only
  rw [BitVec.ofNat_toNat, BitVec.setWidth_eq]
  by_cases hx : (x - d).toNat < n
  · rw [if_pos ⟨Nat.zero_le _, hx⟩, if_pos hx]
  · rw [if_neg (fun h => hx h.2), if_neg hx]

theorem headUp_le (d s : BitVec 64) (n : Nat) : ∃ j : Nat, headUp d s n = j ∧ j ≤ n := by
  have hmask := and_lmask_le d
  unfold headUp lsize
  split
  · split
    · exact ⟨n, rfl, Nat.le_refl n⟩
    · rename_i h
      rw [not_or] at h
      exact ⟨8 - (d &&& lmask).toNat, by omega, by omega⟩
  · exact ⟨0, rfl, Nat.zero_le n⟩

theorem headDown_le (d s : BitVec 64) (n : Nat) : ∃ j : Nat, headDown d s n = j ∧ j ≤ n := by
  have hmask := and_lmask_le d
  unfold headDown lsize
  split
  · split
    · exact ⟨n, rfl, Nat.le_refl n⟩
    · rename_i h
      rw [not_or] at h
      exact ⟨(d &&& lmask).toNat, rfl, by omega⟩
  · exact ⟨0, rfl, Nat.zero_le n⟩

/-- the counters of the three loops -/
theorem loops_eq {j : Nat} (hn : n < 2 ^ 31) (hj : j ≤ n) : intLen (j : Int) = j ∧
    intLen ((lessInt n j / lsize : Nat) : Int) = (n - j) / lsize ∧
      intLen ((lessInt n j % lsize : Nat) : Int) = (n - j) % lsize := by
  rw [lessInt_of_le (Int.natCast_nonneg j) (by omega) hn, Int.toNat_natCast]
  unfold lsize
  exact ⟨intLen_of_lt (by omega), intLen_of_lt (by omega), intLen_of_lt (by omega)⟩

theorem copyUp_right (m : Mem) (hn : n < 2 ^ 31) (ha : Ahead d s n) :
    (copyUp m d s n).1.byte = bufferedCopy m.byte d s n ∧ WritesIn m (copyUp m d s n).1 d n := by
  obtain ⟨j, hhead, hj⟩ := headUp_le d s n
  obtain ⟨c1, c2, c3⟩ := loops_eq hn hj
  have hn' : n ≤ 2 ^ 64 := by omega
  have h0 := Copied.start m d s n 0
  have hend : 0 + 1 * j + lsize * ((n - j) / lsize) + 1 * ((n - j) % lsize) = n := by
    unfold lsize
    omega
  obtain ⟨m1, e1, h1⟩ := moveUp_copied 1 hn' ha j h0 (by omega)
  obtain ⟨m2, e2, h2⟩ := moveUp_copied lsize hn' ha ((n - j) / lsize) h1 (by omega)
  obtain ⟨m3, e3, h3⟩ := moveUp_copied 1 hn' ha ((n - j) % lsize) h2 (by omega)
  have hd : d + BitVec.ofNat 64 0 = d := BitVec.add_zero d
  have hs : s + BitVec.ofNat 64 0 = s := BitVec.add_zero s
  rw [hd, hs] at e1
  have hm : ∃ d' s', copyUp m d s n = (m3, d', s') := by
    unfold copyUp
    dsimp only
    rw [hhead, c1, c2, c3, e1, e2, e3]
    exact ⟨_, _, rfl⟩
  obtain ⟨d', s', hm⟩ := hm
  rw [hend] at h3
  rw [hm]
  exact h3.buffered

theorem copyDown_right (m : Mem) (hn : n < 2 ^ 31) (hb : Behind d s n) :
    (copyDown m d s n).1.byte = bufferedCopy m.byte d s n ∧ WritesIn m (copyDown m d s n).1 d n := by
  obtain ⟨j, hhead, hj⟩ := headDown_le (d + BitVec.ofNat 64 n) (s + BitVec.ofNat 64 n) n
  obtain ⟨c1, c2, c3⟩ := loops_eq hn hj
  have hn' : n ≤ 2 ^ 64 := by omega
  have h0 := Copied.start m d s n n
  have hend : n - 1 * j - lsize * ((n - j) / lsize) - 1 * ((n - j) % lsize) = 0 := by
    unfold lsize
    omega
  obtain ⟨m1, e1, h1⟩ := moveDown_copied 1 hn' hb j h0 (by omega) (Nat.le_refl n)
  obtain ⟨m2, e2, h2⟩ := moveDown_copied lsize hn' hb ((n - j) / lsize) h1 (by unfold lsize; omega) (by omega)
  obtain ⟨m3, e3, h3⟩ := moveDown_copied 1 hn' hb ((n - j) % lsize) h2 (by unfold lsize; omega) (by omega)
  have hm : ∃ d' s', copyDown m d s n = (m3, d', s') := by
    unfold copyDown
    dsimp only
    rw [hhead, c1, c2, c3, e1, e2, e3]
    exact ⟨_, _, rfl⟩
  obtain ⟨d', s', hm⟩ := hm
  rw [hend] at h3
  rw [hm]
  exact h3.buffered

/-- the comparison of two pointers, as `long` -/
theorem ahead_of_lt (hs : InHalf s n) (h : d.slt s = true) : Ahead d s n := by
  rw [BitVec.slt_iff_toInt_lt, BitVec.toInt_eq_toNat_cond, BitVec.toInt_eq_toNat_cond] at h
  unfold Ahead
  unfold InHalf at hs
  rw [BitVec.toNat_sub]
  split at h <;> split at h <;> omega

theorem behind_of_not_lt (hd : InHalf d n) (hs : InHalf s n) (hne : d ≠ s) (h : ¬ d.slt s = true) : Behind d s n := by
  have hne' : d.toNat ≠ s.toNat := fun e => hne (BitVec.eq_of_toNat_eq e)
  rw [BitVec.slt_iff_toInt_lt, BitVec.toInt_eq_toNat_cond, BitVec.toInt_eq_toNat_cond] at h
  refine ⟨?_, hne⟩
  unfold InHalf at hd hs
  rw [BitVec.toNat_sub]
  split at h <;> split at h <;> omega

/-- ranges apart are ahead of each other -/
theorem ahead_of_apart (hn : 0 < n) (h : Apart d s n) : Ahead d s n := by
  have h1 := h d
  rw [BitVec.sub_self] at h1
  unfold Ahead
  by_contra hlt
  exact h1 hn (by bv_omega)

theorem WritesIn.refl (m : Mem) (a : BitVec 64) (n : Nat) : WritesIn m m a n :=
  ⟨[], (List.append_nil _).symm, fun x hx => by cases hx⟩

/-- a copy onto itself -/
theorem bufferedCopy_self (b : BitVec 64 → UInt8) (d s : BitVec 64) (h : n = 0 ∨ d = s) : bufferedCopy b d s n = b := by
  funext x
  rw [bufferedCopy]
  dsimp only
  split
  · rename_i hx
    obtain rfl : d = s := h.resolve_left (by omega)
    rw [BitVec.ofNat_toNat, BitVec.setWidth_eq, BitVec.add_comm, BitVec.sub_add_cancel]
  · rfl

/-! ## `memset` -/

/-- the bytes of the range below `k` hold `c` -/
structure Filled (m₀ : Mem) (s : BitVec 64) (c : UInt8) (n k : Nat) (m : Mem) : Prop where
  byte : ∀ x, m.byte x = if (x - s).toNat < k then c else m₀.byte x
  writes : WritesIn m₀ m s n

theorem fill_filled (size : Nat) {m₀ : Mem} {c : UInt8} {v : Nat → UInt8} (hv : ∀ i < size, v i = c) (hn : n < 2 ^ 64) :
    ∀ (len : Nat) {m : Mem} {k : Nat}, Filled m₀ s c n k m → k + size * len ≤ n →
    ∃ m', fill size v len (m, s + BitVec.ofNat 64 k) = (m', s + BitVec.ofNat 64 (k + size * len)) ∧
      Filled m₀ s c n (k + size * len) m'
  | 0, m, k, h, _ => ⟨m, rfl, h⟩
  | len + 1, m, k, h, hle => by
    have hlen : k + size * (len + 1) = k + size + size * len := by
      rw [Nat.mul_succ]
      omega
    have hstep : Filled m₀ s c n (k + size) (m.store (s + BitVec.ofNat 64 k) size v) := by
      constructor
      · intro x
        show (if (x - (s + BitVec.ofNat 64 k)).toNat < size then v (x - (s + BitVec.ofNat 64 k)).toNat
          else m.byte x) = _
        by_cases hx : (x - (s + BitVec.ofNat 64 k)).toNat < size
        · rw [if_pos hx, hv _ hx]
          rw [sub_add_lt (by omega)] at hx
          rw [if_pos hx.2]
        · rw [if_neg hx, h.byte x]
          rw [sub_add_lt (by omega)] at hx
          by_cases hk : (x - s).toNat < k
          · rw [if_pos hk, if_pos (by omega)]
          · rw [if_neg hk, if_neg (by omega)]
      · exact h.writes.store (by omega) hn.le _
    obtain ⟨m', h1, h2⟩ := fill_filled size hv hn len hstep (by omega)
    refine ⟨m', ?_, by rw [hlen]; exact h2⟩
    rw [fill, BitVec.add_assoc, ← BitVec.ofNat_add, h1, hlen]

/-- the lowest `n` bits repeat the lowest byte of `c` -/
def Repeats (c : BitVec 32) (n : Nat) (w : BitVec 64) : Prop :=
  ∀ k < 64, w.getLsbD k = (decide (k < n) && c.getLsbD (k % 8))

theorem Repeats.twice {c : BitVec 32} {w : BitVec 64} (h : Repeats c n w) (hd : n % 8 = 0) :
    Repeats c (n + n) (w ||| (w <<< n)) := by
  intro k hk
  rw [BitVec.getLsbD_or, BitVec.getLsbD_shiftLeft, h k hk]
  by_cases h1 : k < n
  · rw [decide_eq_true h1, decide_eq_true (show k < n + n by omega), decide_eq_true hk]
    cases c.getLsbD (k % 8) <;> rfl
  · rw [h (k - n) (by omega), decide_eq_false h1, show (k - n) % 8 = k % 8 by omega, decide_eq_true hk]
    by_cases h2 : k < n + n
    · rw [decide_eq_true h2, decide_eq_true (show k - n < n by omega)]
      rfl
    · rw [decide_eq_false h2, decide_eq_false (show ¬ k - n < n by omega)]
      rfl

theorem repeatByte_repeats (c : BitVec 32) : Repeats c 64 (repeatByte c) := by
  have h0 : Repeats c 8 (c.signExtend 64 &&& 0xff) := by
    intro k hk
    have hmask : ∀ k < 64, (0xff : BitVec 64).getLsbD k = decide (k < 8) := by decide
    rw [BitVec.getLsbD_and, hmask k hk, Bool.and_comm]
    by_cases h : k < 8
    · rw [Nat.mod_eq_of_lt h, BitVec.getLsbD_signExtend, decide_eq_true hk, if_pos (by omega), Bool.true_and]
    · rw [decide_eq_false h, Bool.false_and, Bool.false_and]
  exact ((h0.twice rfl).twice rfl).twice rfl

theorem wordBytes_repeatByte (c : BitVec 32) {i : Nat} (hi : i < 8) : wordBytes (repeatByte c) i = charOf c := by
  unfold wordBytes charOf
  congr 1
  apply BitVec.eq_of_getLsbD_eq
  intro j hj
  rw [BitVec.getLsbD_extractLsb', BitVec.getLsbD_extractLsb', repeatByte_repeats c _ (by omega),
    decide_eq_true (show 8 * i + j < 64 by omega), Bool.true_and, Nat.zero_add, show (8 * i + j) % 8 = j by omega]

theorem memset_right (m : Mem) (s : BitVec 64) (c : BitVec 32) (count : BitVec 64) :
    (memset m s c count.toNat).byte = (fun x => if (x - s).toNat < count.toNat then charOf c else m.byte x) ∧
      WritesIn m (memset m s c count.toNat) s count.toNat := by
  have hn := count.isLt
  generalize count.toNat = n at hn
  have h0 : Filled m s (charOf c) n 0 m := ⟨fun x => by rw [if_neg (Nat.not_lt_zero _)], WritesIn.refl m s n⟩
  have hs : s + BitVec.ofNat 64 0 = s := BitVec.add_zero s
  have hone : ∀ i < 1, (fun _ => charOf c : Nat → UInt8) i = charOf c := fun _ _ => rfl
  have hword : ∀ i < 8, wordBytes (repeatByte c) i = charOf c := fun i hi => wordBytes_repeatByte c hi
  have hall : ∀ {m' : Mem}, Filled m s (charOf c) n n m' →
      m'.byte = (fun x => if (x - s).toNat < n then charOf c else m.byte x) ∧ WritesIn m m' s n :=
    fun h => ⟨funext h.byte, h.writes⟩
  unfold memset
  dsimp only
  generalize ((-s) &&& (7 : BitVec 64)).toNat = len
  split
  · obtain ⟨m1, e1, h1⟩ := fill_filled 1 hone hn len h0 (by omega)
    obtain ⟨m2, e2, h2⟩ := fill_filled 8 hword hn ((n - len) / 8) h1 (by omega)
    obtain ⟨m3, e3, h3⟩ := fill_filled 1 hone hn ((n - len) % 8) h2 (by omega)
    rw [hs] at e1
    rw [e1, e2, e3]
    rw [show 0 + 1 * len + 8 * ((n - len) / 8) + 1 * ((n - len) % 8) = n by omega] at h3
    exact hall h3
  · obtain ⟨m1, e1, h1⟩ := fill_filled 1 hone hn n h0 (by omega)
    rw [hs] at e1
    rw [e1]
    rw [show 0 + 1 * n = n by omega] at h1
    exact hall h1

/-- **The routines are the plain ones**: `memmove` is a copy by way of a buffer, so is `memcpy` for ranges apart, `memset`
sets its range to the low byte of `c`; and no byte outside of the destination is written. -/
theorem memory_routines_right (m : Mem) (dest src : BitVec 64) (count : Nat) (hn : count < 2 ^ 31)
    (hd : InHalf dest count) (hs : InHalf src count) (s : BitVec 64) (c : BitVec 32) (n : BitVec 64) :
    ((memmove m dest src count).byte = bufferedCopy m.byte dest src count ∧
      WritesIn m (memmove m dest src count) dest count) ∧
    (Apart dest src count → (memcpy m dest src count).byte = bufferedCopy m.byte dest src count ∧
      WritesIn m (memcpy m dest src count) dest count) ∧
    (memset m s c n.toNat).byte = (fun x => if (x - s).toNat < n.toNat then charOf c else m.byte x) ∧
      WritesIn m (memset m s c n.toNat) s n.toNat := by
  refine ⟨?_, ?_, memset_right m s c n⟩
  · unfold memmove
    split
    · rename_i h
      exact ⟨(bufferedCopy_self m.byte dest src h).symm, WritesIn.refl m dest count⟩
    · rename_i h
      rw [not_or] at h
      split
      · rename_i hlt
        exact copyUp_right m hn (ahead_of_lt hs hlt)
      · rename_i hlt
        exact copyDown_right m hn (behind_of_not_lt hd hs h.2 hlt)
  · intro ha
    unfold memcpy
    split
    · rename_i h
      exact ⟨(bufferedCopy_self m.byte dest src h).symm, WritesIn.refl m dest count⟩
    · rename_i h
      rw [not_or] at h
      exact copyUp_right m hn (ahead_of_apart (Nat.pos_of_ne_zero h.1) ha)

/-- two ranges of 100 bytes, the memory behind them clear -/
theorem memory_routines_hundred : ((memmove ⟨fun _ => 0, []⟩ 200 9 100).byte = bufferedCopy (fun _ => 0) 200 9 100 ∧
    WritesIn ⟨fun _ => 0, []⟩ (memmove ⟨fun _ => 0, []⟩ 200 9 100) 200 100) ∧
    ((memcpy ⟨fun _ => 0, []⟩ 200 9 100).byte = bufferedCopy (fun _ => 0) 200 9 100 ∧
      WritesIn ⟨fun _ => 0, []⟩ (memcpy ⟨fun _ => 0, []⟩ 200 9 100) 200 100) ∧
    (memset ⟨fun _ => 0, []⟩ 3 0 (BitVec.toNat (20 : BitVec 64))).byte =
      (fun x => if (x - 3).toNat < (20 : BitVec 64).toNat then charOf 0 else 0) ∧
      WritesIn ⟨fun _ => 0, []⟩ (memset ⟨fun _ => 0, []⟩ 3 0 (20 : BitVec 64).toNat) 3 (20 : BitVec 64).toNat := by
  obtain ⟨h1, h2, h3⟩ := memory_routines_right ⟨fun _ => 0, []⟩ 200 9 100 (by decide) (.inl (by decide))
    (.inl (by decide)) 3 0 20
  refine ⟨h1, h2 ?_, h3⟩
  intro x hx
  bv_omega

end

end LkHv.Libc
