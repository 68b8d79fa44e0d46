import LkHv.Kernel.Word
import Mathlib.Data.Nat.Bitwise
import Mathlib.Tactic.Ring

/-!
# The buckets of the heap (`lib/heap/cmpctmalloc/cmpctmalloc.c`)

Buckets of 8, 16, ..., 120 bytes and then 8 for every power of two.

* `sizeToIndexHelper`, `sizeToIndexAllocating`, `sizeToIndexFreeing`   the source's;
* `bucket`, `sizeToIndexAllocating_spec`   the areas of the buckets from the one of a request on are the areas that
  are large enough;
* `BucketLaw`, `bucket_law_iff`   the bucket and the rounded size of a request, and for which requests they are right.
-/

namespace LkHv
namespace Heap

def HEAP_ALLOC_VIRTUAL_BITS : Nat := 22
def NUMBER_OF_BUCKETS : Nat := 1 + 15 + (HEAP_ALLOC_VIRTUAL_BITS - 7) * 8

/-- the row and the column of a size of at least 128 bytes -/
def rowColumn (size : Nat) : Nat :=
  let row := Nat.log2 size - 3     -- `sizeof(size_t) * 8 - 4 - clzl(size)`
  let column := (size >>> row) &&& 7
  (row <<< 3) ||| column

/-- the size of a row and column -/
def bucketSize (rowColumn : Nat) : Nat := (8 + (rowColumn &&& 7)) <<< (rowColumn >>> 3)

/-- `a << b` of an `int`, undefined where the result is not an `int` -/
def shlInt (a b : Nat) : Option Nat := if b < 32 ∧ a <<< b < 2 ^ 31 then some (a <<< b) else none

/-- `size_to_index_helper`: the index and the rounded size -/
def sizeToIndexHelper (size : Nat) (adjust : Int) (increment : Nat) : Option (Int × Nat) :=
  if size ≤ 128 then some (((size >>> 3 : Nat) : Int) - 1, if size ≤ 16 then 16 else size)
  else
    let size := (size + adjust).toNat
    let rowColumn := rowColumn size + increment
    (shlInt (8 + (rowColumn &&& 7)) (rowColumn >>> 3)).map fun size => (rowColumn + 15 - 32, size)

def sizeToIndexAllocating (size : Nat) : Option (Int × Nat) := sizeToIndexHelper (roundup64 size 8) (-8) 1

def sizeToIndexFreeing (size : Nat) : Option Int := (sizeToIndexHelper size 0 0).map Prod.fst

/-! ## sizes and buckets -/

theorem bucketSize_eq (r c : Nat) (hc : c < 8) : bucketSize (8 * r + c) = (8 + c) * 2 ^ r := by
  have h1 : (8 * r + c) &&& 7 = c := by
    rw [show (7 : Nat) = 2 ^ 3 - 1 from rfl, Nat.and_two_pow_sub_one_eq_mod]
    lia
  have h2 : (8 * r + c) >>> 3 = r := by
    rw [Nat.shiftRight_eq_div_pow]
    lia
  rw [bucketSize, h1, h2, Nat.shiftLeft_eq]

theorem bucketSize_lt_succ (rc : Nat) : bucketSize rc < bucketSize (rc + 1) := by
  have hd := Nat.div_add_mod rc 8
  have hc := Nat.mod_lt rc (show 8 > 0 by decide)
  have hp : 0 < 2 ^ (rc / 8) := Nat.pow_pos (by decide)
  rw [← hd]
  by_cases e : rc % 8 = 7
  · rw [e, show 8 * (rc / 8) + 7 + 1 = 8 * (rc / 8 + 1) + 0 by lia, bucketSize_eq _ _ (by decide),
      bucketSize_eq _ _ (by decide), Nat.pow_succ]
    lia
  · rw [Nat.add_assoc, bucketSize_eq _ _ hc, bucketSize_eq _ _ (by lia)]
    exact Nat.mul_lt_mul_of_pos_right (by lia) hp

theorem bucketSize_mono {a b : Nat} (h : a ≤ b) : bucketSize a ≤ bucketSize b := by
  induction h with
  | refl => exact le_rfl
  | step _ ih => exact Nat.le_of_lt (Nat.lt_of_le_of_lt ih (bucketSize_lt_succ _))

theorem bucketSize_lt {a b : Nat} : bucketSize a < bucketSize b ↔ a < b := by
  constructor
  · intro h
    by_contra hn
    have := bucketSize_mono (Nat.le_of_not_lt hn)
    omega
  · intro h
    exact Nat.lt_of_lt_of_le (bucketSize_lt_succ a) (bucketSize_mono h)

/-- a bucket is at most an eighth larger than the one before -/
theorem bucketSize_succ_le (rc : Nat) : 8 * bucketSize (rc + 1) ≤ 9 * bucketSize rc := by
  have hd := Nat.div_add_mod rc 8
  have hc := Nat.mod_lt rc (show 8 > 0 by decide)
  rw [← hd]
  by_cases e : rc % 8 = 7
  · rw [e, show 8 * (rc / 8) + 7 + 1 = 8 * (rc / 8 + 1) + 0 by lia, bucketSize_eq _ _ (by decide),
      bucketSize_eq _ _ (by decide), Nat.pow_succ]
    lia
  · rw [Nat.add_assoc, bucketSize_eq _ _ hc, bucketSize_eq _ _ (by lia), ← Nat.mul_assoc, ← Nat.mul_assoc]
    exact Nat.mul_le_mul_right _ (by lia)

/-- a size lies between its bucket's and the next -/
theorem rowColumn_spec {n : Nat} (h : 8 ≤ n) : bucketSize (rowColumn n) ≤ n ∧ n < bucketSize (rowColumn n + 1) := by
  have hn : n ≠ 0 := by omega
  have hlog : 3 ≤ n.log2 := (Nat.le_log2 hn).mpr h
  have h1 := Nat.log2_self_le hn
  have h2 := Nat.lt_log2_self (n := n)
  have e : n.log2 = n.log2 - 3 + 3 := by omega
  rw [e, Nat.pow_add] at h1
  rw [show n.log2 + 1 = n.log2 - 3 + 4 by omega, Nat.pow_add] at h2
  generalize hr : n.log2 - 3 = r at h1 h2
  have hp : 0 < 2 ^ r := Nat.pow_pos (by decide)
  have hq1 : 8 ≤ n / 2 ^ r := by
    rw [Nat.le_div_iff_mul_le hp]
    omega
  have hq2 : n / 2 ^ r < 16 := by
    rw [Nat.div_lt_iff_lt_mul hp]
    omega
  have hcol : (n >>> r) &&& 7 = n / 2 ^ r - 8 := by
    rw [Nat.shiftRight_eq_div_pow, show (7 : Nat) = 2 ^ 3 - 1 from rfl, Nat.and_two_pow_sub_one_eq_mod]
    omega
  have hrc : rowColumn n = 8 * r + (n / 2 ^ r - 8) := by
    simp only [rowColumn, hr, hcol]
    rw [← Nat.shiftLeft_add_eq_or_of_lt (by omega), Nat.shiftLeft_eq, Nat.mul_comm]
  have hdiv := Nat.div_add_mod n (2 ^ r)
  have hmod := Nat.mod_lt n hp
  have hb : bucketSize (rowColumn n) = n / 2 ^ r * 2 ^ r := by
    rw [hrc, bucketSize_eq _ _ (by omega), show 8 + (n / 2 ^ r - 8) = n / 2 ^ r by omega]
  have hb' : bucketSize (rowColumn n + 1) = (n / 2 ^ r + 1) * 2 ^ r := by
    rw [hrc]
    by_cases e15 : n / 2 ^ r = 15
    · rw [e15, show 8 * r + (15 - 8) + 1 = 8 * (r + 1) + 0 by omega, bucketSize_eq _ _ (by decide), Nat.pow_succ]
      omega
    · rw [Nat.add_assoc, bucketSize_eq _ _ (by omega), show 8 + (n / 2 ^ r - 8 + 1) = n / 2 ^ r + 1 by omega]
  rw [Nat.mul_comm] at hdiv
  rw [hb, hb', Nat.succ_mul]
  omega

/-- the rows and columns of the sizes from `bucketSize rc` on -/
theorem le_rowColumn {n rc : Nat} (h : 8 ≤ n) : rc ≤ rowColumn n ↔ bucketSize rc ≤ n := by
  obtain ⟨h1, h2⟩ := rowColumn_spec h
  constructor
  · intro hr
    exact Nat.le_trans (bucketSize_mono hr) h1
  · intro hr
    have := bucketSize_lt.mp (Nat.lt_of_le_of_lt hr h2)
    omega

theorem rowColumn_bucketSize {rc : Nat} (h : 8 ≤ bucketSize rc) : rowColumn (bucketSize rc) = rc := by
  have h1 : rc ≤ rowColumn (bucketSize rc) := (le_rowColumn h).mpr (Nat.le_refl _)
  have h2 := (rowColumn_spec h).1
  have h3 : ¬ rc < rowColumn (bucketSize rc) := fun hlt => absurd (bucketSize_lt.mpr hlt) (by lia)
  lia

/-- the bucket of a free area with room for `n` bytes -/
def bucket (n : Nat) : Nat := if n ≤ 128 then n / 8 - 1 else rowColumn n - 17

theorem rowColumn_large {n : Nat} (h : 128 ≤ n) : 32 ≤ rowColumn n := (le_rowColumn (by omega)).mpr h

/-- the rows that an `int` has room for -/
theorem shlInt_eq (rc : Nat) :
    shlInt (8 + (rc &&& 7)) (rc >>> 3) = if bucketSize rc < 2 ^ 31 then some (bucketSize rc) else none := by
  unfold shlInt
  by_cases h : bucketSize rc < 2 ^ 31
  · have hlt : rc < 224 := bucketSize_lt.mp (lt_of_lt_of_eq h (by decide : 2 ^ 31 = bucketSize 224))
    have hrow : rc >>> 3 < 32 := by
      rw [Nat.shiftRight_eq_div_pow]
      lia
    rw [if_pos h, if_pos ⟨hrow, h⟩]
    rfl
  · rw [if_neg h, if_neg fun hlt => h hlt.2]

/-- a size beyond the first buckets, with its row and column -/
theorem sizeToIndexHelper_large {n : Nat} (h : 128 < n) (adjust : Int) (increment : Nat) {rc : Nat}
    (hrc : rowColumn (n + adjust).toNat + increment = rc) : sizeToIndexHelper n adjust increment =
      if bucketSize rc < 2 ^ 31 then some ((rc : Int) + 15 - 32, bucketSize rc) else none := by
  rw [sizeToIndexHelper, if_neg (by omega)]
  dsimp only
  rw [hrc, shlInt_eq]
  split
  · rfl
  · rfl

theorem sizeToIndexFreeing_eq {n : Nat} (h : 8 ≤ n) :
    sizeToIndexFreeing n = if n < 2 ^ 31 then some (bucket n : Int) else none := by
  rw [sizeToIndexFreeing, bucket]
  by_cases hn : n ≤ 128
  · have he : ((n >>> 3 : Nat) : Int) - 1 = (n / 8 - 1 : Nat) := by
      rw [Nat.shiftRight_eq_div_pow]
      lia
    have hlt : n < 2 ^ 31 := by lia
    rw [sizeToIndexHelper, if_pos hn, if_pos hn, if_pos hlt, he]
    rfl
  · have h1 := rowColumn_large (n := n) (by lia)
    have h2 : bucketSize (rowColumn n) < 2 ^ 31 ↔ n < 2 ^ 31 := by
      have h224 : bucketSize 224 = 2 ^ 31 := by decide
      rw [← h224, bucketSize_lt, ← not_le, ← not_le, le_rowColumn h]
    have he : (rowColumn n : Int) + 15 - 32 = (rowColumn n - 17 : Nat) := by lia
    rw [if_neg hn, sizeToIndexHelper_large (by lia) 0 0 (show _ = rowColumn n from rfl), he]
    by_cases hlt : n < 2 ^ 31
    · rw [if_pos (h2.mpr hlt), if_pos hlt]
      rfl
    · rw [if_neg (fun hb => hlt (h2.mp hb)), if_neg hlt]
      rfl

/-- the buckets that exist -/
theorem bucket_lt {n : Nat} : bucket n < NUMBER_OF_BUCKETS ↔ n < 9 * 2 ^ 19 := by
  rw [bucket]
  split
  · rename_i h
    have : NUMBER_OF_BUCKETS = 136 := rfl
    omega
  · rename_i h
    have h1 := rowColumn_large (n := n) (by omega)
    have h2 : 153 ≤ rowColumn n ↔ bucketSize 153 ≤ n := le_rowColumn (by omega)
    have h3 : bucketSize 153 = 9 * 2 ^ 19 := rfl
    have : NUMBER_OF_BUCKETS = 136 := rfl
    omega

theorem bucketSize_dvd {rc : Nat} (h : 32 ≤ rc) : 8 ∣ bucketSize rc := by
  have hd := Nat.div_add_mod rc 8
  rw [← hd, bucketSize_eq _ _ (Nat.mod_lt _ (by decide))]
  have e : rc / 8 = 3 + (rc / 8 - 3) := by omega
  rw [e, Nat.pow_add]
  exact Nat.dvd_mul_left_of_dvd (Nat.dvd_mul_right _ _) _

theorem roundup64_8 {n : Nat} (h : n + 7 < 2 ^ 64) : roundup64 n 8 = (n + 7) / 8 * 8 := by
  rw [roundup64, Nat.mod_eq_of_lt h]

/-- the bucket of a request that is rounded to `k` bytes -/
def requestBucket (k : Nat) : Nat := if k ≤ 128 then k / 8 - 1 else rowColumn (k - 8) - 16

/-- the sizes that requests are rounded to -/
def Rounded (r : Nat) : Prop := (8 ∣ r ∧ 16 ≤ r ∧ r ≤ 128) ∨ ∃ rc, 33 ≤ rc ∧ rc ≤ 223 ∧ r = bucketSize rc

theorem Rounded.bounds {r : Nat} (h : Rounded r) : 8 ∣ r ∧ 16 ≤ r ∧ r ≤ 15 * 2 ^ 27 := by
  rcases h with ⟨h1, h2, h3⟩ | ⟨rc, h1, h2, rfl⟩
  · exact ⟨h1, h2, by lia⟩
  · have h3 : bucketSize 33 ≤ bucketSize rc := bucketSize_mono h1
    have h4 : bucketSize 33 = 144 := rfl
    exact ⟨bucketSize_dvd (by lia), by lia, bucketSize_mono h2⟩

/-- **The bucket of a request.**  The areas from there on are those that have room for the rounded size. -/
theorem sizeToIndexAllocating_spec {n : Nat} (hn : n ≤ 15 * 2 ^ 27) (h0 : 0 < n) :
    ∃ r, sizeToIndexAllocating n = some ((requestBucket ((n + 7) / 8 * 8) : Int), r) ∧ n ≤ r ∧ r ≤ n + n / 8 + 16 ∧
      Rounded r ∧ ∀ m, 16 ≤ m → 8 ∣ m → (requestBucket ((n + 7) / 8 * 8) ≤ bucket m ↔ r ≤ m) := by
  rw [sizeToIndexAllocating, roundup64_8 (by lia)]
  generalize hk : (n + 7) / 8 * 8 = k
  have h8 : 8 ∣ k := ⟨(n + 7) / 8, by lia⟩
  have hnk : n ≤ k ∧ k < n + 8 ∧ k ≤ 15 * 2 ^ 27 := by lia
  unfold requestBucket
  by_cases hs : k ≤ 128
  · have he : ((k >>> 3 : Nat) : Int) - 1 = (k / 8 - 1 : Nat) := by
      rw [Nat.shiftRight_eq_div_pow]
      lia
    rw [sizeToIndexHelper, if_pos hs, if_pos hs, he]
    by_cases h16 : k ≤ 16
    · rw [if_pos h16]
      refine ⟨16, rfl, by lia, by lia, .inl (by decide), fun m hm _ => ?_⟩
      rw [bucket]
      split
      · lia
      · have := rowColumn_large (n := m) (by lia)
        lia
    · rw [if_neg h16]
      refine ⟨k, rfl, hnk.1, by lia, .inl ⟨h8, by lia, hs⟩, fun m hm h8m => ?_⟩
      rw [bucket]
      split
      · lia
      · have := rowColumn_large (n := m) (by lia)
        lia
  · have e : ((k : Int) + -8).toNat = k - 8 := by lia
    have hsp := rowColumn_spec (n := k - 8) (by lia)
    have hl := rowColumn_large (n := k - 8) (by lia)
    have hup : rowColumn (k - 8) < 223 := by
      have h223 : bucketSize 223 = 15 * 2 ^ 27 := by decide
      apply bucketSize_lt.mp
      lia
    have hmax : bucketSize (rowColumn (k - 8) + 1) ≤ 15 * 2 ^ 27 := bucketSize_mono (show _ ≤ 223 by lia)
    have heighth := bucketSize_succ_le (rowColumn (k - 8))
    have h33 : bucketSize 33 ≤ bucketSize (rowColumn (k - 8) + 1) := bucketSize_mono (by lia)
    have h144 : bucketSize 33 = 144 := rfl
    have hd : 8 ∣ bucketSize (rowColumn (k - 8) + 1) := bucketSize_dvd (by lia)
    have hi : ((rowColumn (k - 8) + 1 : Nat) : Int) + 15 - 32 = (rowColumn (k - 8) - 16 : Nat) := by lia
    rw [sizeToIndexHelper_large (by lia) (-8) 1 (congrArg (fun x => rowColumn x + 1) e), if_pos (by lia), hi,
      if_neg hs]
    refine ⟨_, rfl, by lia, by lia, .inr ⟨_, by lia, by lia, rfl⟩, fun m hm h8m => ?_⟩
    rw [bucket]
    split
    · lia
    · rw [← le_rowColumn (by lia)]
      have := rowColumn_large (n := m) (by lia)
      lia

/-- beyond the sizes that an `int` has room for -/
theorem sizeToIndexAllocating_none {n : Nat} (hn : 15 * 2 ^ 27 < n) (h : n + 7 < 2 ^ 64) :
    sizeToIndexAllocating n = none := by
  rw [sizeToIndexAllocating, roundup64_8 h]
  generalize hk : (n + 7) / 8 * 8 = k
  have hnk : 15 * 2 ^ 27 + 8 ≤ k := by lia
  have e : ((k : Int) + -8).toNat = k - 8 := by lia
  have h1 : 223 ≤ rowColumn (k - 8) := by
    rw [le_rowColumn (by lia)]
    exact le_trans (show _ ≤ 15 * 2 ^ 27 by decide) (by lia)
  have h2 : bucketSize 224 ≤ bucketSize (rowColumn (k - 8) + 1) := bucketSize_mono (by lia)
  have h224 : bucketSize 224 = 2 ^ 31 := by decide
  rw [sizeToIndexHelper_large (by lia) (-8) 1 (congrArg (fun x => rowColumn x + 1) e), if_neg (by lia)]

/-- sizes that wrap when they are rounded -/
theorem sizeToIndexAllocating_wrap {n : Nat} (h : 2 ^ 64 ≤ n + 7) (hn : n < 2 ^ 64) :
    sizeToIndexAllocating n = some (-1, 16) := by
  have h0 : roundup64 n 8 = 0 := by
    unfold roundup64
    lia
  rw [sizeToIndexAllocating, h0]
  rfl

/-! ## the law -/

/-- the largest request that is not handed to the page allocator -/
def LARGEST_REQUEST : Nat := (1 <<< HEAP_ALLOC_VIRTUAL_BITS) - 16

/-- the room of a free area: a multiple of 8, and enough for the two links -/
def Filed (m : Nat) : Prop := 8 ∣ m ∧ 16 ≤ m

/-- the bucket and the rounded size of a request of `n` bytes are right -/
structure Lawful (n : Nat) (index : Int) (rounded : Nat) : Prop where
  exists_bucket : 0 ≤ index
  covers : n ≤ rounded
  /-- whatever was filed in the bucket or in a higher one is large enough -/
  filed : ∀ m j, Filed m → sizeToIndexFreeing m = some j → index ≤ j → rounded ≤ m
  /-- both functions agree on the rounded size, and rounding it again changes nothing -/
  consistent : ∃ j, sizeToIndexAllocating rounded = some (j, rounded) ∧ sizeToIndexFreeing rounded = some j
  waste : rounded ≤ n + n / 8 + 16
  inside : n ≤ LARGEST_REQUEST → index < NUMBER_OF_BUCKETS
  mono : ∀ n' ≤ n, ∀ j r, sizeToIndexAllocating n' = some (j, r) → j ≤ index

/-- the request has a bucket, and it is right -/
def BucketLaw (n : Nat) : Prop := ∃ index rounded, sizeToIndexAllocating n = some (index, rounded) ∧ Lawful n index rounded

theorem bucket_mono {m n : Nat} (h : m ≤ n) : bucket m ≤ bucket n := by
  unfold bucket
  split
  · split
    · omega
    · have := rowColumn_large (n := n) (by omega)
      omega
  · rename_i hm
    have hr : rowColumn m ≤ rowColumn n := (le_rowColumn (by omega)).mpr ((rowColumn_spec (by omega)).1.trans h)
    rw [if_neg (by omega)]
    omega

theorem requestBucket_mono {k k' : Nat} (h8 : 8 ∣ k') (h : k ≤ k') : requestBucket k ≤ requestBucket k' := by
  unfold requestBucket
  split
  · split
    · omega
    · rename_i hk'
      have := rowColumn_large (n := k' - 8) (by omega)
      omega
  · rename_i hk
    have hr : rowColumn (k - 8) ≤ rowColumn (k' - 8) := by
      rw [le_rowColumn (by omega)]
      exact (rowColumn_spec (by omega)).1.trans (by omega)
    rw [if_neg (by omega)]
    omega

/-- a rounded size is in the bucket that it was rounded up to -/
theorem Rounded.consistent {r : Nat} (h : Rounded r) :
    sizeToIndexAllocating r = some ((bucket r : Int), r) ∧ sizeToIndexFreeing r = some (bucket r : Int) := by
  obtain ⟨h8, h16, hmax⟩ := h.bounds
  have hround : roundup64 r 8 = r := by
    rw [roundup64_8 (by lia)]
    lia
  refine ⟨?_, by rw [sizeToIndexFreeing_eq (by lia), if_pos (by lia)]⟩
  rw [sizeToIndexAllocating, hround]
  rcases h with ⟨-, -, h128⟩ | ⟨rc, h1, h2, rfl⟩
  · have he : ((r >>> 3 : Nat) : Int) - 1 = (r / 8 - 1 : Nat) := by
      rw [Nat.shiftRight_eq_div_pow]
      lia
    rw [sizeToIndexHelper, if_pos h128, he, bucket, if_pos h128]
    split
    · congr 2
      lia
    · rfl
  · obtain ⟨rc, rfl⟩ : ∃ c, rc = c + 1 := ⟨rc - 1, by lia⟩
    have h144 : bucketSize 33 = 144 := rfl
    have h3 : bucketSize 33 ≤ bucketSize (rc + 1) := bucketSize_mono h1
    have hstep : rowColumn (bucketSize (rc + 1) - 8) = rc := by
      have hlt := bucketSize_lt_succ rc
      have hd := @bucketSize_dvd rc (by lia)
      have hle : rc ≤ rowColumn (bucketSize (rc + 1) - 8) := (le_rowColumn (by lia)).mpr (by lia)
      have hge : ¬ rc + 1 ≤ rowColumn (bucketSize (rc + 1) - 8) := by
        rw [le_rowColumn (by lia)]
        lia
      lia
    have e : ((bucketSize (rc + 1) : Int) + -8).toNat = bucketSize (rc + 1) - 8 := by lia
    have hi : ((rc + 1 : Nat) : Int) + 15 - 32 = (rc + 1 - 17 : Nat) := by lia
    rw [sizeToIndexHelper_large (by lia) (-8) 1 ((congrArg (fun x => rowColumn x + 1) e).trans (by rw [hstep])),
      if_pos (by lia), bucket, if_neg (by lia), rowColumn_bucketSize (by lia), hi]

theorem lawful_of_le {n : Nat} (h0 : 0 < n) (hn : n ≤ 15 * 2 ^ 27) : BucketLaw n := by
  obtain ⟨r, h1, h2, h3, h4, h5⟩ := sizeToIndexAllocating_spec hn h0
  have hN : NUMBER_OF_BUCKETS = 136 := rfl
  refine ⟨_, r, h1, Int.natCast_nonneg _, h2, fun m j hm hj hle => ?_, ⟨_, h4.consistent⟩, h3, fun hmax => ?_, ?_⟩
  · rw [sizeToIndexFreeing_eq (by have := hm.2; omega)] at hj
    split at hj
    · cases hj
      exact (h5 m hm.2 hm.1).mp (Int.ofNat_le.mp hle)
    · cases hj
  · have hlarge : LARGEST_REQUEST = 2 ^ 22 - 16 := by decide
    have h136 : requestBucket ((n + 7) / 8 * 8) < 136 := by
      unfold requestBucket
      split
      · omega
      · have h152 : bucketSize 152 = 2 ^ 22 := by decide
        have hr : rowColumn ((n + 7) / 8 * 8 - 8) < 152 := by
          apply bucketSize_lt.mp
          have := (rowColumn_spec (n := (n + 7) / 8 * 8 - 8) (by omega)).1
          omega
        omega
    omega
  · intro n' hn' j r' hj
    by_cases hz : n' = 0
    · rw [hz] at hj
      have h0 : sizeToIndexAllocating 0 = some (-1, 16) := rfl
      rw [h0] at hj
      cases hj
      omega
    · obtain ⟨r₁, h6, -⟩ := sizeToIndexAllocating_spec (n := n') (by omega) (by omega)
      rw [h6] at hj
      cases hj
      exact Int.ofNat_le.mpr (requestBucket_mono ⟨_, Nat.mul_comm _ _⟩ (by omega))

/-- **The bucket law.**  It holds of the requests that an `int` has room for, which are all that `cmpct_alloc` should
come with; the buckets of free areas are monotone, and those of all areas that `heap_grow` makes exist. -/
theorem bucket_law_iff {n : Nat} (hn : n < 2 ^ 64) :
    (BucketLaw n ↔ 0 < n ∧ n ≤ 15 * 2 ^ 27) ∧ LARGEST_REQUEST ≤ 15 * 2 ^ 27 ∧
      (∀ m m' j j', 8 ≤ m → m ≤ m' → sizeToIndexFreeing m = some j → sizeToIndexFreeing m' = some j' → j ≤ j') ∧
      ∀ m, 8 ≤ m → m ≤ 2 ^ 22 + 4096 → ∃ j < NUMBER_OF_BUCKETS, sizeToIndexFreeing m = some (j : Int) := by
  refine ⟨⟨fun ⟨index, rounded, h, hl⟩ => ?_, fun h => lawful_of_le h.1 h.2⟩, by decide, ?_, ?_⟩
  · by_contra hout
    by_cases hz : n = 0
    · rw [hz] at h
      cases h
      exact absurd hl.exists_bucket (by decide)
    · by_cases hw : n + 7 < 2 ^ 64
      · rw [sizeToIndexAllocating_none (by lia) hw] at h
        cases h
      · rw [sizeToIndexAllocating_wrap (by lia) hn] at h
        cases h
        exact absurd hl.exists_bucket (by decide)
  · intro m m' j j' hm hle hj hj'
    rw [sizeToIndexFreeing_eq hm] at hj
    rw [sizeToIndexFreeing_eq (by lia)] at hj'
    split at hj
    · split at hj'
      · cases hj
        cases hj'
        exact Int.ofNat_le.mpr (bucket_mono hle)
      · cases hj'
    · cases hj
  · intro m hm hmax
    exact ⟨bucket m, bucket_lt.mpr (by lia), by rw [sizeToIndexFreeing_eq hm, if_pos (by lia)]⟩

/-- a request of 129 bytes gets 144 -/
theorem bucket_law_129 : BucketLaw 129 := (@bucket_law_iff 129 (by decide)).1.mpr (by decide)

/-- **`SIZE_MAX`.**  The sum with the header wraps in `cmpct_alloc`, and the rounding here: bucket -1 and 16 bytes. -/
theorem bucket_law_fails : ¬ ∀ n, 0 < n → n < 2 ^ 64 → BucketLaw n := by
  intro h
  obtain ⟨index, rounded, h1, h2⟩ := h (2 ^ 64 - 1) (by decide) (by decide)
  rw [sizeToIndexAllocating_wrap (by decide) (by decide)] at h1
  cases h1
  exact absurd h2.exists_bucket (by decide)

end Heap
end LkHv
