import LkHv.Kernel.Err
import Mathlib.Tactic.Linarith
import Mathlib.Data.Nat.Bitwise

/-!
# Sub-devices (`lib/bio/bio.c`, `lib/bio/subdev.c`)

A device is a root or a sub-device of another one; an access is trimmed to the device and handed to its parent.

* `EraseRegion`, `Bdev`, `Dev`   an erase region, the fields of a device, a device with its parents;
* `bioTrimRange`, `bioTrimBlockRange`, `bioContainsRange`, `bioPublishSubdevice`   the source's;
* `Placed`, `Contained`     each region lies in its parent and in one erase region of it; no access leaves a region;
* `RangesFound`, `NoWrap`   a region was found for each request; the end of the access is in the range of its type;
* `subdev_contained`        the first pair holds exactly when the second does;
* `subdev_contained_fails`  a read of `SIZE_MAX - 511` bytes at 512 reaches the blocks behind the sub-device.
-/

namespace LkHv.Bio

/-! ## devices -/

/-- `bio_erase_geometry_info_t` -/
structure EraseRegion where
  start : Nat
  size : Nat
  eraseSize : Nat
  eraseShift : Nat
  /-- an assertion of `bio_initialize_bdev` -/
  eraseSize_eq : eraseSize = 2 ^ eraseShift

/-- `struct bdev`, as `bio_initialize_bdev` fills it in, with erase regions of the device -/
structure Bdev where
  blockSize : Nat
  blockShift : Nat
  blockCount : Nat
  totalSize : Nat
  geometry : List EraseRegion
  shift_lt : blockShift < 32
  count_lt : blockCount < 2 ^ 32
  blockSize_eq : blockSize = 2 ^ blockShift
  total_eq : totalSize = blockCount <<< blockShift
  regions : ∀ r ∈ geometry, r.start + r.size ≤ totalSize

/-- a device; a sub-device starts at block `offset` of its parent -/
inductive Dev
  | root (b : Bdev)
  | sub (b : Bdev) (parent : Dev) (offset : BitVec 32)

def Dev.dev : Dev → Bdev
  | .root b => b
  | .sub b _ _ => b

inductive ByteOp
  | read
  | write
  | erase
  deriving DecidableEq

inductive BlockOp
  | read
  | write
  deriving DecidableEq

/-- a call of `bio_read`, `bio_write`, `bio_erase`, `bio_read_block` or `bio_write_block` -/
inductive Access
  | bytes (op : ByteOp) (offset len : BitVec 64)
  | blocks (op : BlockOp) (block count : BitVec 32)
  deriving DecidableEq

/-! ## accesses -/

/-- `bio_trim_range`; offsets are signed -/
def bioTrimRange (d : Bdev) (offset len : BitVec 64) : BitVec 64 :=
  if offset.toInt < 0 then 0
  else if offset.toInt ≥ d.totalSize then 0
  else if len = 0 then 0
  else if (offset + len).toInt > d.totalSize then BitVec.ofNat 64 d.totalSize - offset
  else len

/-- `bio_trim_block_range` -/
def bioTrimBlockRange (d : Bdev) (block count : BitVec 32) : BitVec 32 :=
  if block.toNat > d.blockCount then 0
  else if count = 0 then 0
  else if (block + count).toNat > d.blockCount then BitVec.ofNat 32 d.blockCount - block
  else count

/-- the call of the device's own function by `bio_read` and the others -/
def bioCall (d : Bdev) : Access → Option Access
  | .bytes op offset len =>
    if bioTrimRange d offset len = 0 then none else some (.bytes op offset (bioTrimRange d offset len))
  | .blocks op block count =>
    if bioTrimBlockRange d block count = 0 then none else some (.blocks op block (bioTrimBlockRange d block count))

/-- `subdev_read`, `subdev_write`, `subdev_erase` -/
def subdevBytes (d : Bdev) (start : BitVec 32) (op : ByteOp) (offset len : BitVec 64) : Access :=
  .bytes op (offset + start.zeroExtend 64 * BitVec.ofNat 64 d.blockSize) len

/-- `subdev_read_block`, `subdev_write_block` -/
def subdevBlocks (start : BitVec 32) (op : BlockOp) (block count : BitVec 32) : Access :=
  .blocks op (block + start) count

/-- what a sub-device asks of its parent -/
def subdevCall (d : Bdev) (start : BitVec 32) : Access → Access
  | .bytes op offset len => subdevBytes d start op offset len
  | .blocks op block count => subdevBlocks start op block count

/-! ## publishing -/

/-- `bio_contains_range` -/
def bioContainsRange (containerStart containerLen containedStart containedLen : Nat) : Bool :=
  containerStart ≤ containedStart ∧
    (containerStart + containerLen) % 2 ^ 64 ≥ (containedStart + containedLen) % 2 ^ 64

/-- the loop over the erase regions: the first that contains the range, and otherwise the last -/
def findGeo (byteStart byteSize : Nat) : Option EraseRegion → List EraseRegion → Option EraseRegion
  | geo, [] => geo
  | _, r :: rs => if bioContainsRange r.start r.size byteStart byteSize then some r else findGeo byteStart byteSize (some r) rs

/-- `bio_initialize_bdev` for a sub-device of `p` -/
def subBdev (p : Bdev) (count : BitVec 32) (geometry : List EraseRegion)
    (h : ∀ r ∈ geometry, r.start + r.size ≤ count.toNat <<< p.blockShift) : Bdev where
  blockSize := p.blockSize
  blockShift := p.blockShift
  blockCount := count.toNat
  totalSize := count.toNat <<< p.blockShift
  geometry := geometry
  shift_lt := p.shift_lt
  count_lt := count.isLt
  blockSize_eq := p.blockSize_eq
  total_eq := rfl
  regions := h

/-- the one erase region of a sub-device -/
def subGeometry (geo : EraseRegion) (byteSize : Nat) : EraseRegion :=
  ⟨0, byteSize, geo.eraseSize, geo.eraseShift, geo.eraseSize_eq⟩

theorem subGeometry_le (p : Bdev) (count : BitVec 32) (geo : EraseRegion) :
    ∀ r ∈ [subGeometry geo (count.toNat <<< p.blockShift % 2 ^ 64)], r.start + r.size ≤ count.toNat <<< p.blockShift := by
  intro r hr
  rw [List.mem_singleton] at hr
  rw [hr]
  show 0 + count.toNat <<< p.blockShift % 2 ^ 64 ≤ _
  rw [Nat.zero_add]
  exact Nat.mod_le _ _

/-- `bio_publish_subdevice`; `parent` is what `bio_open` found and `mem` whether `malloc` has memory -/
def bioPublishSubdevice (parent : Option Dev) (mem : Bool) (startblock blockCount : BitVec 32) : Except Int Dev :=
  match parent with
  | none => .error ERR_NOT_FOUND
  | some parent =>
    let p := parent.dev
    if ¬ mem then .error ERR_NO_MEMORY
    else if p.geometry ≠ [] then
      let byteStart := startblock.toNat <<< p.blockShift % 2 ^ 64
      let byteSize := blockCount.toNat <<< p.blockShift % 2 ^ 64
      match findGeo byteStart byteSize none p.geometry with
      | none => .error ERR_INVALID_ARGS
      | some geo =>
        if byteStart &&& (2 ^ geo.eraseShift - 1) ≠ 0 ∨ byteSize &&& (2 ^ geo.eraseShift - 1) ≠ 0 then
          .error ERR_INVALID_ARGS
        else .ok (.sub (subBdev p blockCount [subGeometry geo byteSize] (subGeometry_le p blockCount geo)) parent startblock)
    else if (startblock + blockCount).toNat < startblock.toNat ∨ (startblock + blockCount).toNat > p.blockCount then
      .error ERR_INVALID_ARGS
    else .ok (.sub (subBdev p blockCount [] (by simp)) parent startblock)

/-- the devices that chains of requests give -/
inductive Published : Dev → Prop
  | root (b : Bdev) : Published (.root b)
  | sub {p d : Dev} {mem : Bool} {startblock blockCount : BitVec 32} : Published p →
    bioPublishSubdevice (some p) mem startblock blockCount = .ok d → Published d

/-! ## containment -/

/-- an access of the parent inside the region -/
def Inside (b : Bdev) (start : BitVec 32) : Access → Prop
  | .bytes _ offset len => (start.toNat * b.blockSize : Int) ≤ offset.toInt ∧
    offset.toInt + len.toNat ≤ ((start.toNat + b.blockCount) * b.blockSize : Nat)
  | .blocks _ block count => start.toNat ≤ block.toNat ∧ block.toNat + count.toNat ≤ start.toNat + b.blockCount

/-- the access and those it leads to stay inside, at each level -/
def Contained : Dev → Access → Prop
  | .root _, _ => True
  | .sub b p start, a => ∀ a', bioCall b a = some a' → Inside b start (subdevCall b start a') ∧
      Contained p (subdevCall b start a')

/-- the range lies in the erase region, by its units -/
def InRegion (b : Bdev) (start : BitVec 32) (r : EraseRegion) : Prop :=
  r.start ≤ start.toNat * b.blockSize ∧ (start.toNat + b.blockCount) * b.blockSize ≤ r.start + r.size ∧
    r.eraseSize ∣ start.toNat * b.blockSize ∧ r.eraseSize ∣ b.blockCount * b.blockSize

/-- each region lies in its parent, and in one of the parent's erase regions if that has any -/
def Placed : Dev → Prop
  | .root _ => True
  | .sub b p start => start.toNat + b.blockCount ≤ p.dev.blockCount ∧
    (p.dev.geometry ≠ [] → ∃ r ∈ p.dev.geometry, InRegion b start r) ∧ Placed p

/-- the search through the erase regions found one -/
def RangesFound : Dev → Prop
  | .root _ => True
  | .sub b p start => (p.dev.geometry ≠ [] → ∃ r ∈ p.dev.geometry,
      bioContainsRange r.start r.size (start.toNat * b.blockSize) (b.blockCount * b.blockSize) = true) ∧ RangesFound p

/-- an access that begins on the sub-device ends below the limit of its type -/
def NoWrap : Dev → Access → Prop
  | .root _, _ => True
  | .sub b _ _, .bytes _ offset len => 0 ≤ offset.toInt → offset.toInt < b.totalSize → offset.toNat + len.toNat < 2 ^ 63
  | .sub b _ _, .blocks _ block count => block.toNat ≤ b.blockCount → block.toNat + count.toNat < 2 ^ 32

section
variable {b : Bdev} {d p : Dev} {a : Access} {start startblock blockCount : BitVec 32} {mem : Bool}

/-! ## sizes -/

theorem Bdev.total_mul (b : Bdev) : b.totalSize = b.blockCount * b.blockSize := by
  rw [b.total_eq, b.blockSize_eq, Nat.shiftLeft_eq]

theorem Bdev.blockSize_pos (b : Bdev) : 0 < b.blockSize := by
  rw [b.blockSize_eq]
  exact Nat.two_pow_pos _

theorem Bdev.blockSize_le (b : Bdev) : b.blockSize ≤ 2 ^ 31 := by
  rw [b.blockSize_eq]
  exact Nat.pow_le_pow_right (by decide) (by have := b.shift_lt; omega)

theorem mul_blockSize_lt (b : Bdev) {n : Nat} (hn : n < 2 ^ 32) : n * b.blockSize < 2 ^ 63 := by
  have h1 : n * b.blockSize ≤ (2 ^ 32 - 1) * 2 ^ 31 := Nat.mul_le_mul (by omega) b.blockSize_le
  omega

theorem Bdev.total_lt (b : Bdev) : b.totalSize < 2 ^ 63 := by
  rw [b.total_mul]
  exact mul_blockSize_lt b b.count_lt

theorem toInt_of_lt {x : BitVec 64} (h : x.toNat < 2 ^ 63) : x.toInt = x.toNat := by
  rw [BitVec.toInt_eq_toNat_cond, if_pos (by omega)]

theorem toNat_lt_of_toInt {x : BitVec 64} (h : 0 ≤ x.toInt) : x.toNat < 2 ^ 63 := by
  rw [BitVec.toInt_eq_toNat_cond] at h
  split at h
  · omega
  · have := x.isLt
    omega

/-! ## publishing -/

theorem findGeo_some {s n : Nat} {rs : List EraseRegion} {geo : Option EraseRegion}
    (h : ∃ r ∈ rs, bioContainsRange r.start r.size s n = true) :
    ∃ r ∈ rs, findGeo s n geo rs = some r ∧ bioContainsRange r.start r.size s n = true := by
  induction rs generalizing geo with
  | nil =>
    obtain ⟨r, hr, -⟩ := h
    cases hr
  | cons t rs ih =>
    rw [findGeo]
    split
    · rename_i ht
      exact ⟨t, .head _, rfl, ht⟩
    · rename_i ht
      obtain ⟨r, hr, hc⟩ := h
      have hr' : r ∈ rs := by
        rcases List.mem_cons.mp hr with rfl | hr
        · exact absurd hc ht
        · exact hr
      obtain ⟨u, hu, hf, hc'⟩ := @ih (some t) ⟨r, hr', hc⟩
      exact ⟨u, .tail _ hu, hf, hc'⟩

/-- a range of a device, without the wrap-around -/
theorem containsRange_iff (b p : Bdev) (start : BitVec 32) {r : EraseRegion} (hr : r ∈ p.geometry) :
    bioContainsRange r.start r.size (start.toNat * b.blockSize) (b.blockCount * b.blockSize) = true ↔
      r.start ≤ start.toNat * b.blockSize ∧ (start.toNat + b.blockCount) * b.blockSize ≤ r.start + r.size := by
  have h1 := p.regions r hr
  have h2 := p.total_lt
  have h3 := mul_blockSize_lt b start.isLt
  have h4 := mul_blockSize_lt b b.count_lt
  rw [Nat.add_mul]
  unfold bioContainsRange
  rw [Nat.mod_eq_of_lt (show r.start + r.size < 2 ^ 64 by omega),
    Nat.mod_eq_of_lt (show start.toNat * b.blockSize + b.blockCount * b.blockSize < 2 ^ 64 by omega)]
  simp

/-- **`bio_publish_subdevice`.** -/
theorem publish_ok (h : bioPublishSubdevice (some p) mem startblock blockCount = .ok d) :
    ∃ b, d = .sub b p startblock ∧ b.blockSize = p.dev.blockSize ∧
      (p.dev.geometry = [] → startblock.toNat + b.blockCount ≤ p.dev.blockCount) ∧
      ∀ r ∈ p.dev.geometry, findGeo (startblock.toNat * b.blockSize) (b.blockCount * b.blockSize) none p.dev.geometry
        = some r → r.eraseSize ∣ startblock.toNat * b.blockSize ∧ r.eraseSize ∣ b.blockCount * b.blockSize := by
  have hbyte : ∀ n : BitVec 32, n.toNat <<< p.dev.blockShift % 2 ^ 64 = n.toNat * p.dev.blockSize := by
    intro n
    have := mul_blockSize_lt p.dev n.isLt
    rw [Nat.shiftLeft_eq, ← p.dev.blockSize_eq, Nat.mod_eq_of_lt (by omega)]
  unfold bioPublishSubdevice at h
  simp only [hbyte] at h
  split at h
  · cases h
  split at h
  · rename_i hg
    split at h
    · cases h
    rename_i geo hgeo
    split at h
    · cases h
    rename_i ha
    cases h
    refine ⟨_, rfl, rfl, fun e => absurd e hg, fun r _ hr => ?_⟩
    have e : geo = r := by
      exact Option.some.inj (hgeo.symm.trans hr)
    rw [e, Nat.and_two_pow_sub_one_eq_mod, Nat.and_two_pow_sub_one_eq_mod, not_or, not_not, not_not] at ha
    rw [r.eraseSize_eq]
    exact ⟨Nat.dvd_of_mod_eq_zero ha.1, Nat.dvd_of_mod_eq_zero ha.2⟩
  · rename_i hg
    have hg' : p.dev.geometry = [] := not_not.mp hg
    split at h
    · cases h
    rename_i hle
    cases h
    refine ⟨_, rfl, rfl, fun _ => ?_, fun r hr => by rw [hg'] at hr; cases hr⟩
    show startblock.toNat + blockCount.toNat ≤ _
    bv_omega

/-- **The regions**: those for which an erase region was found, and no others. -/
theorem placed_iff (h : Published d) : Placed d ↔ RangesFound d := by
  induction h with
  | root b => exact Iff.rfl
  | @sub p d mem startblock blockCount _ hd ih =>
    obtain ⟨b, rfl, hb, hnil, halign⟩ := publish_ok hd
    refine ⟨fun hp => ⟨fun hg => ?_, ih.mp hp.2.2⟩, fun hf => ?_⟩
    · obtain ⟨r, hr, hin⟩ := hp.2.1 hg
      exact ⟨r, hr, (containsRange_iff b p.dev startblock hr).mpr ⟨hin.1, hin.2.1⟩⟩
    · by_cases hg : p.dev.geometry = []
      · exact ⟨hnil hg, fun hne => absurd hg hne, ih.mpr hf.2⟩
      · obtain ⟨r, hr, hfind, hc⟩ := @findGeo_some _ _ _ none (hf.1 hg)
        obtain ⟨h1, h2⟩ := (containsRange_iff b p.dev startblock hr).mp hc
        obtain ⟨h3, h4⟩ := halign r hr hfind
        refine ⟨?_, fun _ => ⟨r, hr, h1, h2, h3, h4⟩, ih.mpr hf.2⟩
        have hle : (startblock.toNat + b.blockCount) * b.blockSize ≤ p.dev.blockCount * b.blockSize := by
          rw [hb, ← p.dev.total_mul, ← hb]
          exact h2.trans (p.dev.regions r hr)
        exact Nat.le_of_mul_le_mul_right hle b.blockSize_pos

/-! ## accesses -/

/-- a trimmed access begins on the device -/
theorem of_trimRange_ne {offset len : BitVec 64} (h : bioTrimRange b offset len ≠ 0) :
    0 ≤ offset.toInt ∧ offset.toInt < b.totalSize := by
  unfold bioTrimRange at h
  split at h
  · exact absurd rfl h
  split at h
  · exact absurd rfl h
  omega

/-- it ends there if the end did not wrap, and beyond otherwise -/
theorem trimRange_le_iff {offset len : BitVec 64} (h0 : 0 ≤ offset.toInt) (h1 : offset.toInt < b.totalSize) :
    offset.toNat + (bioTrimRange b offset len).toNat ≤ b.totalSize ↔ offset.toNat + len.toNat < 2 ^ 63 := by
  have hb := b.total_lt
  have hlt := toNat_lt_of_toInt h0
  have hoff := toInt_of_lt hlt
  have hlen := len.isLt
  have hsum : (offset + len).toInt = if offset.toNat + len.toNat < 2 ^ 63 then (offset.toNat + len.toNat : Int)
      else (offset.toNat + len.toNat : Int) - 2 ^ 64 := by
    rw [BitVec.toInt_eq_toNat_cond, BitVec.toNat_add]
    split <;> split <;> lia
  unfold bioTrimRange
  rw [if_neg (by lia), if_neg (by lia)]
  split
  · rename_i hz
    rw [hz]
    show offset.toNat + 0 ≤ b.totalSize ↔ offset.toNat + 0 < 2 ^ 63
    lia
  rename_i hz
  have hpos : len.toNat ≠ 0 := fun e => hz (BitVec.eq_of_toNat_eq e)
  split
  · rename_i hgt
    rw [hsum] at hgt
    have htrim : (BitVec.ofNat 64 b.totalSize - offset).toNat = b.totalSize - offset.toNat := by
      rw [BitVec.toNat_sub, BitVec.toNat_ofNat, Nat.mod_eq_of_lt (by lia : b.totalSize < 2 ^ 64)]
      lia
    rw [htrim]
    split at hgt <;> lia
  · rename_i hle
    rw [hsum] at hle
    split at hle <;> lia

theorem of_trimBlockRange_ne {block count : BitVec 32} (h : bioTrimBlockRange b block count ≠ 0) :
    block.toNat ≤ b.blockCount := by
  unfold bioTrimBlockRange at h
  split at h
  · exact absurd rfl h
  omega

theorem trimBlockRange_le_iff {block count : BitVec 32} (h0 : block.toNat ≤ b.blockCount) :
    block.toNat + (bioTrimBlockRange b block count).toNat ≤ b.blockCount ↔ block.toNat + count.toNat < 2 ^ 32 := by
  have hb := b.count_lt
  have hcount := count.isLt
  unfold bioTrimBlockRange
  rw [if_neg (by omega)]
  split
  · rename_i hz
    rw [hz]
    show block.toNat + 0 ≤ b.blockCount ↔ block.toNat + 0 < 2 ^ 32
    omega
  rename_i hz
  have hpos : count.toNat ≠ 0 := fun e => hz (BitVec.eq_of_toNat_eq e)
  split
  · rename_i hgt
    have htrim : (BitVec.ofNat 32 b.blockCount - block).toNat = b.blockCount - block.toNat := by
      rw [BitVec.toNat_sub, BitVec.toNat_ofNat, Nat.mod_eq_of_lt hb]
      omega
    rw [htrim]
    rw [BitVec.toNat_add] at hgt
    omega
  · rename_i hle
    rw [BitVec.toNat_add] at hle
    omega

theorem bioCall_bytes {op : ByteOp} {offset len : BitVec 64} {a' : Access}
    (h : bioCall b (.bytes op offset len) = some a') :
    bioTrimRange b offset len ≠ 0 ∧ a' = .bytes op offset (bioTrimRange b offset len) := by
  by_cases hz : bioTrimRange b offset len = 0
  · rw [bioCall, if_pos hz] at h
    cases h
  · rw [bioCall, if_neg hz] at h
    exact ⟨hz, (Option.some.inj h).symm⟩

theorem bioCall_blocks {op : BlockOp} {block count : BitVec 32} {a' : Access}
    (h : bioCall b (.blocks op block count) = some a') :
    bioTrimBlockRange b block count ≠ 0 ∧ a' = .blocks op block (bioTrimBlockRange b block count) := by
  by_cases hz : bioTrimBlockRange b block count = 0
  · rw [bioCall, if_pos hz] at h
    cases h
  · rw [bioCall, if_neg hz] at h
    exact ⟨hz, (Option.some.inj h).symm⟩

/-- the byte offset of the parent -/
theorem subdev_offset {offset : BitVec 64} (hp : start.toNat + b.blockCount < 2 ^ 32) (h0 : 0 ≤ offset.toInt)
    (h1 : offset.toInt < b.totalSize) :
    (offset + start.zeroExtend 64 * BitVec.ofNat 64 b.blockSize).toNat = offset.toNat + start.toNat * b.blockSize ∧
      offset.toNat + start.toNat * b.blockSize < (start.toNat + b.blockCount) * b.blockSize ∧
      (start.toNat + b.blockCount) * b.blockSize < 2 ^ 63 := by
  have hlt := toNat_lt_of_toInt h0
  rw [toInt_of_lt hlt, b.total_mul] at h1
  have hsum := mul_blockSize_lt b hp
  have hsize := b.blockSize_le
  have hs := start.isLt
  have hmul : (start.zeroExtend 64 * BitVec.ofNat 64 b.blockSize).toNat = start.toNat * b.blockSize := by
    have hz : (start.zeroExtend 64).toNat = start.toNat := by
      rw [BitVec.zeroExtend, BitVec.toNat_setWidth]
      exact Nat.mod_eq_of_lt (by omega)
    rw [BitVec.toNat_mul, hz, BitVec.toNat_ofNat, Nat.mod_eq_of_lt (show b.blockSize < 2 ^ 64 by omega)]
    rw [Nat.add_mul] at hsum
    exact Nat.mod_eq_of_lt (by omega)
  rw [BitVec.toNat_add, hmul]
  rw [Nat.add_mul] at hsum ⊢
  refine ⟨Nat.mod_eq_of_lt (by omega), by omega, by omega⟩

/-- **One level**: the parent is asked for something inside the region exactly if the end did not wrap. -/
theorem inside_iff {a' : Access} (hp : start.toNat + b.blockCount ≤ p.dev.blockCount) (h : bioCall b a = some a') :
    Inside b start (subdevCall b start a') ↔ NoWrap (.sub b p start) a := by
  have hplt := p.dev.count_lt
  cases a with
  | bytes op offset len =>
    obtain ⟨hne, rfl⟩ := bioCall_bytes h
    obtain ⟨h0, h1⟩ := of_trimRange_ne hne
    have hsum : start.toNat + b.blockCount < 2 ^ 32 := by lia
    obtain ⟨he, hlt, hend⟩ := subdev_offset hsum h0 h1
    have hint := toInt_of_lt (x := offset + start.zeroExtend 64 * BitVec.ofNat 64 b.blockSize) (by lia)
    have hiff := @trimRange_le_iff b offset len h0 h1
    show ((start.toNat * b.blockSize : Int) ≤ (offset + start.zeroExtend 64 * BitVec.ofNat 64 b.blockSize).toInt ∧
      (offset + start.zeroExtend 64 * BitVec.ofNat 64 b.blockSize).toInt + (bioTrimRange b offset len).toNat ≤
        ((start.toNat + b.blockCount) * b.blockSize : Nat)) ↔ (0 ≤ offset.toInt → offset.toInt < b.totalSize → _)
    rw [hint, he, Nat.add_mul, ← b.total_mul]
    constructor
    · rintro ⟨-, h⟩ - -
      rw [← hiff]
      lia
    · intro h
      have := hiff.mpr (h h0 h1)
      push_cast
      lia
  | blocks op block count =>
    obtain ⟨hne, rfl⟩ := bioCall_blocks h
    have h0 := of_trimBlockRange_ne hne
    have hiff := @trimBlockRange_le_iff b block count h0
    have he : (block + start).toNat = block.toNat + start.toNat := by
      rw [BitVec.toNat_add]
      exact Nat.mod_eq_of_lt (by lia)
    show (start.toNat ≤ (block + start).toNat ∧ (block + start).toNat + (bioTrimBlockRange b block count).toNat ≤
      start.toNat + b.blockCount) ↔ (block.toNat ≤ b.blockCount → _)
    rw [he]
    constructor
    · rintro ⟨-, h⟩ -
      rw [← hiff]
      lia
    · intro h
      have := hiff.mpr (h h0)
      lia

/-- an access inside the region does not wrap on the parent -/
theorem Inside.noWrap (hb : b.blockSize = p.dev.blockSize) (hp : start.toNat + b.blockCount ≤ p.dev.blockCount)
    (h : Inside b start a) : NoWrap p a := by
  cases p with
  | root => trivial
  | sub c q s =>
    cases a with
    | bytes op offset len =>
      intro h0 h1
      have hoff := toInt_of_lt (toNat_lt_of_toInt h0)
      have hend := mul_blockSize_lt b (n := start.toNat + b.blockCount) (by have := c.count_lt; exact lt_of_le_of_lt hp this)
      have := h.2
      omega
    | blocks op block count =>
      intro h0
      exact lt_of_le_of_lt (h.2.trans hp) c.count_lt

/-- an access that the device does not pass on does not wrap either -/
theorem noWrap_of_none (h : bioCall b a = none) : NoWrap (.sub b p start) a := by
  cases a with
  | bytes op offset len =>
    intro h0 h1
    have hz : bioTrimRange b offset len = 0 := by
      by_contra hne
      rw [bioCall, if_neg hne] at h
      cases h
    rw [← trimRange_le_iff h0 h1, hz]
    show offset.toNat + 0 ≤ b.totalSize
    have := toInt_of_lt (toNat_lt_of_toInt h0)
    omega
  | blocks op block count =>
    intro h0
    have hz : bioTrimBlockRange b block count = 0 := by
      by_contra hne
      rw [bioCall, if_neg hne] at h
      cases h
    rw [← trimBlockRange_le_iff h0, hz]
    exact h0

/-- **No access leaves a sub-device** if the end of the first one does not wrap. -/
theorem contained_iff (h : Published d) (hp : Placed d) : Contained d a ↔ NoWrap d a := by
  induction h generalizing a with
  | root b => exact Iff.rfl
  | @sub p d mem startblock blockCount _ hd ih =>
    obtain ⟨b, rfl, hb, -, -⟩ := publish_ok hd
    have hle : startblock.toNat + b.blockCount ≤ p.dev.blockCount := hp.1
    cases hc : bioCall b a with
    | none =>
      refine ⟨fun _ => noWrap_of_none hc, fun _ a' ha' => ?_⟩
      rw [hc] at ha'
      cases ha'
    | some a' =>
      rw [← inside_iff hle hc]
      constructor
      · intro h
        exact (h a' hc).1
      · intro hin a'' ha''
        rw [hc] at ha''
        cases ha''
        exact ⟨hin, (ih hp.2.2).mpr (hin.noWrap hb hle)⟩

/-- **Sub-devices.**  Every region lies where it should and no access leaves one exactly if an erase region was found
for each request and the end of the access does not wrap. -/
theorem subdev_contained (h : Published d) (a : Access) :
    (Placed d ∧ Contained d a) ↔ (RangesFound d ∧ NoWrap d a) := by
  rw [← placed_iff h]
  constructor
  · rintro ⟨hp, hc⟩
    exact ⟨hp, (contained_iff h hp).mp hc⟩
  · rintro ⟨hp, hn⟩
    exact ⟨hp, (contained_iff h hp).mpr hn⟩

end

/-! ## a root with a sub-device -/

/-- 4096 blocks of 512 bytes without erase regions -/
def smallDev : Bdev := ⟨512, 9, 4096, 4096 <<< 9, [], by decide, by decide, rfl, rfl, fun _ h => by cases h⟩

/-- its blocks 16 to 23 -/
def smallSub : Dev := .sub (subBdev smallDev 8 [] fun _ h => by cases h) (.root smallDev) 16

theorem smallSub_published : Published smallSub :=
  @Published.sub (.root smallDev) smallSub true 16 8 (.root smallDev) rfl

/-- the theorem for a read of the last block -/
theorem subdev_contained_last :
    Placed smallSub ∧ Contained smallSub (.bytes .read 3584 4096) := by
  refine (subdev_contained smallSub_published _).mpr ⟨⟨fun h => absurd rfl h, trivial⟩, fun _ _ => ?_⟩
  decide

/-- **A read of `SIZE_MAX - 511` bytes at 512.**  The sum is 0, so nothing is trimmed. -/
theorem subdev_contained_fails : ¬ ∀ d, Published d → ∀ a, Placed d ∧ Contained d a := by
  intro h
  have hc := (h smallSub smallSub_published (.bytes .read 512 (-512))).2
  obtain ⟨⟨-, hin⟩, -⟩ := hc _ rfl
  revert hin
  decide

end LkHv.Bio

namespace LkHv

/-- a device without erase regions -/
def plainDev (shift count : Nat) (h : shift < 32 ∧ count < 2 ^ 32) : Bio.Bdev where
  blockSize := 2 ^ shift
  blockShift := shift
  blockCount := count
  totalSize := count <<< shift
  geometry := []
  shift_lt := h.1
  count_lt := h.2
  blockSize_eq := rfl
  total_eq := rfl
  regions := fun _ hr => (List.not_mem_nil hr).elim

end LkHv
