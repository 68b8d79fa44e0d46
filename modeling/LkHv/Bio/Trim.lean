import LkHv.Bio.Subdev

/-!
# Trimming (`lib/bio/bio.c`)

* `overlap`      the size of the intersection of two ranges, over the integers;
* `bioDefaultErase`   the calls of the device's write function by an erase;
* `Trimmed`      the trimmed length is the intersection, and what is passed on lies on the device;
* `EndsInRange`  the end of a request that begins on the device is in the range of its type, and a request that begins
  before the device ends there;
* `trimmed_iff`  the first holds exactly when the second does, and an erase by blocks never leaves the device;
* `trimmed_fails`   a read of `SIZE_MAX - 511` bytes at 512 is not trimmed at all.
-/

namespace LkHv.Bio

/-- the size of the intersection of `n` numbers from `a` on with those below `total` -/
def overlap (a : Int) (n total : Nat) : Nat := (min (a + n) total - max a 0).toNat

/-- `MIN(remaining, dev->block_size)` -/
def towrite (d : Bdev) (remaining : BitVec 64) : BitVec 64 :=
  if remaining.toNat < d.blockSize then remaining else BitVec.ofNat 64 d.blockSize

/-- the loop of `bio_default_erase`: the writes that reach the driver, while it returns the values `written` -/
def eraseLoop (d : Bdev) : List (BitVec 64) → BitVec 64 → BitVec 64 → List Access
  | written, pos, remaining =>
    if remaining = 0 then []
    else
      match bioCall d (.bytes .write pos (towrite d remaining)) with
      -- `bio_write` returns 0, less than `towrite`
      | none => []
      | some a =>
        a :: match written with
          | [] => []
          | w :: written =>
            if w.toInt < 0 ∨ w.toNat < (towrite d remaining).toNat then []
            else eraseLoop d written (pos + w) (remaining - w)

/-- `bio_default_erase` -/
def bioDefaultErase (d : Bdev) (written : List (BitVec 64)) (offset len : BitVec 64) : List Access :=
  eraseLoop d written offset len

/-! ## what trimming is for -/

/-- the access touches the device only -/
def OnDevice (d : Bdev) : Access → Prop
  | .bytes _ offset len => 0 ≤ offset.toInt ∧ offset.toInt + len.toNat ≤ d.totalSize
  | .blocks _ block count => block.toNat + count.toNat ≤ d.blockCount

/-- the length that `bio_trim_range` or `bio_trim_block_range` gives is that of the intersection -/
def TrimExact (d : Bdev) : Access → Prop
  | .bytes _ offset len => (bioTrimRange d offset len).toNat = overlap offset.toInt len.toNat d.totalSize
  | .blocks _ block count => (bioTrimBlockRange d block count).toNat = overlap block.toNat count.toNat d.blockCount

/-- the request is trimmed to its intersection with the device, and nothing else reaches the driver -/
def Trimmed (d : Bdev) (a : Access) : Prop := TrimExact d a ∧ ∀ a', bioCall d a = some a' → OnDevice d a'

/-- the end of the request does not wrap, and a request from before the device does not reach it -/
def EndsInRange (d : Bdev) : Access → Prop
  | .bytes _ offset len => (0 ≤ offset.toInt → offset.toInt < d.totalSize → offset.toNat + len.toNat < 2 ^ 63) ∧
    (offset.toInt < 0 → offset.toInt + len.toNat ≤ 0 ∨ d.totalSize = 0)
  | .blocks _ block count => block.toNat ≤ d.blockCount → block.toNat + count.toNat < 2 ^ 32

variable {d : Bdev}

/-! ## the exact conditions -/

/-- a byte range that begins on the device and does not wrap -/
theorem trimRange_toNat {offset len : BitVec 64} (h0 : 0 ≤ offset.toInt) (h1 : offset.toInt < d.totalSize)
    (hlt : offset.toNat + len.toNat < 2 ^ 63) :
    (bioTrimRange d offset len).toNat = min len.toNat (d.totalSize - offset.toNat) := by
  have htotal := d.total_lt
  have hoff := toInt_of_lt (toNat_lt_of_toInt h0)
  have hnat : (offset + len).toNat = offset.toNat + len.toNat := by
    rw [BitVec.toNat_add]
    exact Nat.mod_eq_of_lt (by lia)
  have hsum : (offset + len).toInt = (offset.toNat + len.toNat : Nat) := by
    rw [toInt_of_lt (hnat ▸ hlt), hnat]
  unfold bioTrimRange
  rw [if_neg (by lia), if_neg (by lia)]
  split
  · rename_i hz
    rw [hz]
    exact (Nat.zero_min _).symm
  split
  · rename_i hgt
    have hsub : (BitVec.ofNat 64 d.totalSize - offset).toNat = d.totalSize - offset.toNat := by
      rw [BitVec.toNat_sub, BitVec.toNat_ofNat, Nat.mod_eq_of_lt (by lia : d.totalSize < 2 ^ 64)]
      lia
    rw [hsub]
    lia
  · lia

theorem trimRange_overlap_iff {offset len : BitVec 64} (h0 : 0 ≤ offset.toInt) (h1 : offset.toInt < d.totalSize) :
    (bioTrimRange d offset len).toNat = overlap offset.toInt len.toNat d.totalSize ↔
      offset.toNat + len.toNat < 2 ^ 63 := by
  have hoff := toInt_of_lt (toNat_lt_of_toInt h0)
  constructor
  · intro h
    apply (trimRange_le_iff h0 h1).mp
    rw [h, overlap]
    omega
  · intro h
    rw [trimRange_toNat h0 h1 h, overlap]
    omega

/-- a block range that begins on the device and does not wrap -/
theorem trimBlockRange_toNat {block count : BitVec 32} (h0 : block.toNat ≤ d.blockCount)
    (hlt : block.toNat + count.toNat < 2 ^ 32) :
    (bioTrimBlockRange d block count).toNat = min count.toNat (d.blockCount - block.toNat) := by
  have hcount := d.count_lt
  have hsum : (block + count).toNat = block.toNat + count.toNat := by
    rw [BitVec.toNat_add]
    exact Nat.mod_eq_of_lt hlt
  unfold bioTrimBlockRange
  rw [if_neg (by lia)]
  split
  · rename_i hz
    rw [hz]
    exact (Nat.zero_min _).symm
  split
  · have hsub : (BitVec.ofNat 32 d.blockCount - block).toNat = d.blockCount - block.toNat := by
      rw [BitVec.toNat_sub, BitVec.toNat_ofNat, Nat.mod_eq_of_lt hcount]
      lia
    rw [hsub]
    lia
  · lia

theorem trimBlockRange_overlap_iff {block count : BitVec 32} (h0 : block.toNat ≤ d.blockCount) :
    (bioTrimBlockRange d block count).toNat = overlap block.toNat count.toNat d.blockCount ↔
      block.toNat + count.toNat < 2 ^ 32 := by
  constructor
  · intro h
    apply (trimBlockRange_le_iff h0).mp
    rw [h, overlap]
    omega
  · intro h
    rw [trimBlockRange_toNat h0 h, overlap]
    omega

theorem trimRange_before {offset : BitVec 64} (len : BitVec 64) (h : offset.toInt < 0) :
    bioTrimRange d offset len = 0 := by
  rw [bioTrimRange, if_pos h]

theorem trimRange_after {offset : BitVec 64} (len : BitVec 64) (h : d.totalSize ≤ offset.toInt) :
    bioTrimRange d offset len = 0 := by
  have h0 : ¬ offset.toInt < 0 := by omega
  rw [bioTrimRange, if_neg h0, if_pos h]

theorem trimExact_iff (a : Access) : TrimExact d a ↔ EndsInRange d a := by
  cases a with
  | bytes op offset len =>
    show (bioTrimRange d offset len).toNat = overlap offset.toInt len.toNat d.totalSize ↔ _ ∧ _
    by_cases hneg : offset.toInt < 0
    · rw [trimRange_before len hneg, overlap]
      show 0 = _ ↔ _
      lia
    have h0 : 0 ≤ offset.toInt := by lia
    by_cases hlt : offset.toInt < d.totalSize
    · rw [trimRange_overlap_iff h0 hlt]
      exact ⟨fun h => ⟨fun _ _ => h, fun h' => absurd h' hneg⟩, fun h => h.1 h0 hlt⟩
    · rw [trimRange_after len (by lia), overlap]
      show 0 = _ ↔ _
      lia
  | blocks op block count =>
    show (bioTrimBlockRange d block count).toNat = overlap block.toNat count.toNat d.blockCount ↔ (_ → _)
    by_cases h0 : block.toNat ≤ d.blockCount
    · rw [trimBlockRange_overlap_iff h0]
      exact ⟨fun h _ => h, fun h => h h0⟩
    · rw [bioTrimBlockRange, if_pos (by lia), overlap]
      show 0 = _ ↔ _
      lia

/-- what is passed on without a wrap lies on the device -/
theorem EndsInRange.onDevice {a a' : Access} (h : EndsInRange d a) (hc : bioCall d a = some a') : OnDevice d a' := by
  cases a with
  | bytes op offset len =>
    obtain ⟨hne, rfl⟩ := bioCall_bytes hc
    obtain ⟨h0, h1⟩ := of_trimRange_ne hne
    have hle := (trimRange_le_iff h0 h1).mpr (h.1 h0 h1)
    have hoff := toInt_of_lt (toNat_lt_of_toInt h0)
    exact ⟨h0, by omega⟩
  | blocks op block count =>
    obtain ⟨hne, rfl⟩ := bioCall_blocks hc
    have h0 := of_trimBlockRange_ne hne
    exact (trimBlockRange_le_iff h0).mpr (h h0)

/-! ## erase -/

theorem towrite_le (d : Bdev) (remaining : BitVec 64) : (towrite d remaining).toNat ≤ d.blockSize := by
  unfold towrite
  split
  · omega
  · rw [BitVec.toNat_ofNat]
    exact Nat.mod_le _ _

/-- a write of at most a block never wraps -/
theorem small_onDevice {pos n : BitVec 64} {op : ByteOp} {a : Access} (h : n.toNat ≤ d.blockSize)
    (hc : bioCall d (.bytes op pos n) = some a) : OnDevice d a := by
  have hsize := d.blockSize_le
  have htotal : d.totalSize ≤ (2 ^ 32 - 1) * 2 ^ 31 := by
    rw [d.total_mul]
    exact Nat.mul_le_mul (Nat.le_sub_one_of_lt d.count_lt) hsize
  obtain ⟨hne, rfl⟩ := bioCall_bytes hc
  obtain ⟨h0, h1⟩ := of_trimRange_ne hne
  have hoff := toInt_of_lt (toNat_lt_of_toInt h0)
  have hnat : pos.toNat + n.toNat < 2 ^ 63 := by lia
  have hle := (trimRange_le_iff h0 h1).mpr hnat
  exact ⟨h0, by lia⟩

/-- **An erase by blocks** stays on the device, whatever the driver returns. -/
theorem eraseLoop_onDevice (written : List (BitVec 64)) (pos remaining : BitVec 64) :
    ∀ a ∈ eraseLoop d written pos remaining, OnDevice d a := by
  induction written generalizing pos remaining with
  | nil =>
    intro a ha
    rw [eraseLoop] at ha
    split at ha
    · cases ha
    cases hc : bioCall d (.bytes .write pos (towrite d remaining)) with
    | none =>
      rw [hc] at ha
      cases ha
    | some a' =>
      rw [hc] at ha
      rw [List.mem_singleton.mp ha]
      exact small_onDevice (towrite_le d remaining) hc
  | cons w written ih =>
    intro a ha
    rw [eraseLoop] at ha
    split at ha
    · cases ha
    cases hc : bioCall d (.bytes .write pos (towrite d remaining)) with
    | none =>
      rw [hc] at ha
      cases ha
    | some a' =>
      rw [hc] at ha
      rcases List.mem_cons.mp ha with rfl | ha
      · exact small_onDevice (towrite_le d remaining) hc
      · split at ha
        · cases ha
        · exact ih _ _ a ha

/-! ## the claims -/

/-- **Trimming** is exact, and nothing outside of the device is passed on, for those requests that end in the range of
their type; an erase by blocks is always on the device. -/
theorem trimmed_iff (d : Bdev) :
    (∀ a, Trimmed d a ↔ EndsInRange d a) ∧
      ∀ written offset len, ∀ a ∈ bioDefaultErase d written offset len, OnDevice d a := by
  refine ⟨fun a => ⟨fun h => (trimExact_iff a).mp h.1, fun h => ⟨(trimExact_iff a).mpr h, ?_⟩⟩, ?_⟩
  · intro a' hc
    exact h.onDevice hc
  · exact eraseLoop_onDevice

/-- **A read of `SIZE_MAX - 511` bytes at 512** is passed on as it is. -/
theorem trimmed_fails : ¬ ∀ (d : Bdev) (a : Access), Trimmed d a := by
  intro h
  have hin := (h smallDev (.bytes .read 512 (-512))).2 _ rfl
  revert hin
  show ¬ (0 ≤ (512 : BitVec 64).toInt ∧ _ + _ ≤ _)
  decide

end LkHv.Bio
