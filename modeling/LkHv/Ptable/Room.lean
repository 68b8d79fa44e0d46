import LkHv.Ptable.Alloc
import Mathlib.Data.List.Pairwise

/-!
# Where the allocator of the partition table puts a partition (`ptable_allocate`)

* `regionsOf`, `GeometryOk`   the erase regions, a device without any being one region of blocks; what
                     `bio_initialize_bdev` asserts of them;
* `RoomIn`, `Room`   whole blocks and erase units of one region between two bytes; such a range free of entries;
* `AllocRight`       room is found if there is some, the lowest or the highest, and no longer than need be;
* `adjust_best`      one gap: `ptable_adjust_request_for_erase_geometry` finds its best room;
* `searchGaps`       the loop over the gaps between the entries;
* `AllocWhen`        the condition;
* `allocate_right_iff`   under it, and not otherwise, the allocator is right.
-/

namespace LkHv
open Bio

/-! ## what is claimed -/

/-- a device that has no erase geometry: one region, in units of a block -/
def wholeDevice (b : Bdev) : EraseRegion := ⟨0, b.totalSize, b.blockSize, b.blockShift, b.blockSize_eq⟩

def regionsOf (b : Bdev) : List EraseRegion := if b.geometry = [] then [wholeDevice b] else b.geometry

/-- the assertions of `bio_initialize_bdev` about the erase regions -/
structure GeometryOk (b : Bdev) : Prop where
  shift : ∀ g ∈ b.geometry, g.eraseShift < 64
  block : ∀ g ∈ b.geometry, 2 ^ b.blockShift ∣ g.start ∧ 2 ^ b.blockShift ∣ g.size
  erase : ∀ g ∈ b.geometry, 2 ^ g.eraseShift ∣ g.start ∧ 2 ^ g.eraseShift ∣ g.size
  apart : b.geometry.Pairwise fun r1 r2 => r1.start + r1.size ≤ r2.start

/-- whole blocks and erase units of one region, between two bytes -/
structure RoomIn (b : Bdev) (lo hi : Nat) (g : EraseRegion) (offset length : Nat) : Prop where
  lo : lo ≤ offset
  hi : offset + length ≤ hi
  start : g.start ≤ offset
  stop : offset + length ≤ g.start + g.size
  block : 2 ^ b.blockShift ∣ offset ∧ 2 ^ b.blockShift ∣ length
  erase : 2 ^ g.eraseShift ∣ offset ∧ 2 ^ g.eraseShift ∣ length

/-- room for `n` bytes in a region of the device: a range that is not empty and free of entries -/
structure Room (b : Bdev) (list : List PtableEntry) (n : Nat) (g : EraseRegion) (offset length : Nat) : Prop where
  pos : 0 < length
  long : n ≤ length
  room : RoomIn b 0 b.totalSize g offset length
  free : ∀ e ∈ list, offset + length ≤ e.offset ∨ e.stop ≤ offset

/-- the first of two places, or with `allocEnd` the last -/
def Before (allocEnd : Bool) (offset offset' : Nat) : Prop := if allocEnd then offset' ≤ offset else offset ≤ offset'

/-- **Room is found if there is some**: the lowest one, or the highest, of the length that its region rounds to. -/
structure AllocRight (b : Bdev) (list : List PtableEntry) (n : Nat) (allocEnd : Bool)
    (r : Option (Except Int (Nat × Nat))) : Prop where
  found : (∃ p, r = some (.ok p)) ↔ ∃ g ∈ regionsOf b, ∃ offset length, Room b list n g offset length
  place : ∀ offset length, r = some (.ok (offset, length)) → ∃ g ∈ regionsOf b, Room b list n g offset length ∧
    length < n + max b.blockSize g.eraseSize ∧
      ∀ g' ∈ regionsOf b, ∀ offset' length', Room b list n g' offset' length' → Before allocEnd offset offset'

/-! ## erase regions -/

section
variable {b : Bdev} {list : List PtableEntry} {lo hi n offset length : Nat} {allocEnd : Bool} {g : EraseRegion}

/-- a region that keeps the assertions -/
structure RegionOk (b : Bdev) (g : EraseRegion) : Prop where
  shift : g.eraseShift < 64
  inside : g.start + g.size ≤ b.totalSize
  block : 2 ^ b.blockShift ∣ g.start ∧ 2 ^ b.blockShift ∣ g.size
  erase : 2 ^ g.eraseShift ∣ g.start ∧ 2 ^ g.eraseShift ∣ g.size

theorem GeometryOk.regionOk (h : GeometryOk b) : ∀ g ∈ regionsOf b, RegionOk b g := by
  intro g hg
  unfold regionsOf at hg
  split at hg
  · rw [List.mem_singleton.1 hg]
    have hlt := b.shift_lt
    exact ⟨show b.blockShift < 64 by omega, show 0 + b.totalSize ≤ b.totalSize by omega,
      ⟨Nat.dvd_zero _, b.block_dvd_total⟩, ⟨Nat.dvd_zero _, b.block_dvd_total⟩⟩
  · exact ⟨h.shift g hg, b.regions g hg, h.block g hg, h.erase g hg⟩

theorem GeometryOk.apart_regions (h : GeometryOk b) :
    (regionsOf b).Pairwise fun r1 r2 => r1.start + r1.size ≤ r2.start := by
  unfold regionsOf
  split
  · exact List.pairwise_singleton _ _
  · exact h.apart

/-- two places of different regions, at one byte -/
theorem GeometryOk.region_eq (h : GeometryOk b) {g' : EraseRegion} (hg : g ∈ regionsOf b) (hg' : g' ∈ regionsOf b)
    (h1 : g.start ≤ offset ∧ offset < g.start + g.size) (h2 : g'.start ≤ offset ∧ offset < g'.start + g'.size) :
    g = g' := by
  let R : EraseRegion → EraseRegion → Prop :=
    fun r1 r2 => r1 = r2 ∨ r1.start + r1.size ≤ r2.start ∨ r2.start + r2.size ≤ r1.start
  have hp : (regionsOf b).Pairwise R := h.apart_regions.imp fun h => .inr (.inl h)
  have hq : (regionsOf b).Pairwise (flip R) := h.apart_regions.imp fun h => .inr (.inr h)
  rcases hp.forall_of_forall_of_flip (fun _ _ => .inl rfl) hq hg hg' with h | h | h
  · exact h
  · omega
  · omega

/-- the least multiple of the erase unit that is not below `x` -/
theorem RegionOk.roundup (h : RegionOk b g) {x : Nat} (hx : x ≤ b.totalSize) :
    2 ^ g.eraseShift ∣ roundup64 x (shl1 g.eraseShift) ∧ x ≤ roundup64 x (shl1 g.eraseShift) ∧
      ∀ q, 2 ^ g.eraseShift ∣ q → x ≤ q → roundup64 x (shl1 g.eraseShift) ≤ q := by
  have hlt := b.total_lt
  have hle := shl1_le g.eraseShift
  have he : shl1 g.eraseShift = 2 ^ g.eraseShift := by rw [shl1, Nat.mod_eq_of_lt h.shift]
  rw [← he]
  exact roundup64_spec (shl1_pos _) (by omega)

/-- the greatest multiple of the erase unit that is not above `x` -/
theorem RegionOk.rounddown (h : RegionOk b g) (x : Nat) :
    2 ^ g.eraseShift ∣ rounddown x (shl1 g.eraseShift) ∧ rounddown x (shl1 g.eraseShift) ≤ x ∧
      ∀ q, 2 ^ g.eraseShift ∣ q → q ≤ x → q ≤ rounddown x (shl1 g.eraseShift) := by
  have he : shl1 g.eraseShift = 2 ^ g.eraseShift := by rw [shl1, Nat.mod_eq_of_lt h.shift]
  rw [he]
  refine ⟨Nat.dvd_mul_left _ _, Nat.div_mul_le_self _ _, ?_⟩
  rintro q ⟨c, rfl⟩ hq
  rw [Nat.mul_comm]
  exact Nat.mul_le_mul_right _ ((Nat.le_div_iff_mul_le (Nat.two_pow_pos _)).2 (by rwa [Nat.mul_comm]))

/-- whole blocks stay whole when they are rounded down to erase units -/
theorem rounddown_block {x j k : Nat} (hd : 2 ^ j ∣ x) : 2 ^ j ∣ LkHv.rounddown x (shl1 k) := by
  unfold LkHv.rounddown shl1
  rcases Nat.le_total j (k % 64) with hj | hj
  · exact (Nat.pow_dvd_pow 2 hj).trans (Nat.dvd_mul_left _ _)
  · rw [Nat.div_mul_cancel ((Nat.pow_dvd_pow 2 hj).trans hd)]
    exact hd

/-! ## one gap -/

/-- the best room for `n` bytes of a region, between two bytes -/
structure Best (b : Bdev) (lo hi n : Nat) (allocEnd : Bool) (g : EraseRegion) (offset length : Nat) : Prop where
  room : RoomIn b lo hi g offset length
  long : n ≤ length
  least : ∀ q, 2 ^ g.eraseShift ∣ q → n ≤ q → length ≤ q
  first : ∀ offset' length', 0 < length' → n ≤ length' → RoomIn b lo hi g offset' length' →
    Before allocEnd offset offset'

/-- no room for `n` bytes -/
def NoRoom (b : Bdev) (lo hi n : Nat) (g : EraseRegion) : Prop :=
  ∀ offset length, 0 < length → n ≤ length → ¬ RoomIn b lo hi g offset length

/-- a gap between entries -/
structure GapOk (b : Bdev) (lo hi : Nat) : Prop where
  le : lo ≤ hi
  inside : hi ≤ b.totalSize
  block : 2 ^ b.blockShift ∣ lo ∧ 2 ^ b.blockShift ∣ hi

theorem dvd_max {d x y : Nat} (h1 : d ∣ x) (h2 : d ∣ y) : d ∣ max x y := by
  rcases Nat.le_total x y with h | h
  · rwa [Nat.max_eq_right h]
  · rwa [Nat.max_eq_left h]

theorem dvd_min {d x y : Nat} (h1 : d ∣ x) (h2 : d ∣ y) : d ∣ min x y := by
  rcases Nat.le_total x y with h | h
  · rwa [Nat.min_eq_left h]
  · rwa [Nat.min_eq_right h]

/-- one region of the list -/
theorem adjustInRegions_cons (allocEnd : Bool) (hG : GapOk b lo hi) (hg : RegionOk b g) (hn : n ≤ hi - lo) (hd : 2 ^ b.blockShift ∣ n)
    (l : List EraseRegion) :
    (∃ offset length, adjustInRegions lo (hi - lo) n allocEnd (g :: l) = some (.ok (offset, length)) ∧
      Best b lo hi n allocEnd g offset length) ∨
    (adjustInRegions lo (hi - lo) n allocEnd (g :: l) = adjustInRegions lo (hi - lo) n allocEnd l ∧
      NoRoom b lo hi n g) := by
  have htotal := b.total_lt
  obtain ⟨hle, hin, hlo, hhi⟩ := hG
  have hreg := hg.inside
  have hsum : lo + (hi - lo) = hi := by omega
  rw [adjustInRegions, bioDoesOverlap]
  dsimp only
  rw [add64_of_inside (show lo + (hi - lo) ≤ b.totalSize by omega), add64_of_inside hreg, if_neg (by omega), hsum]
  by_cases ho : (lo ≥ g.start ∧ lo < g.start + g.size) ∨ (g.start ≥ lo ∧ g.start < hi)
  · rw [decide_eq_true ho]
    dsimp only
    obtain ⟨hs1, hs2, hs3⟩ := hg.roundup (show max lo g.start ≤ b.totalSize by omega)
    obtain ⟨he1, he2, he3⟩ := hg.rounddown (min hi (g.start + g.size))
    obtain ⟨hl1, hl2, hl3⟩ := hg.roundup (show n ≤ b.totalSize by omega)
    have hsb := roundup_block (k := g.eraseShift) (show max lo g.start < 2 ^ 63 by omega) (dvd_max hlo hg.block.1)
    have hlb := roundup_block (k := g.eraseShift) (show n < 2 ^ 63 by omega) hd
    have heb := rounddown_block (k := g.eraseShift) (dvd_min hhi (Nat.dvd_add hg.block.1 hg.block.2))
    have hslt : roundup64 (max lo g.start) (shl1 g.eraseShift) < 2 ^ 64 :=
      Nat.lt_of_le_of_lt (Nat.div_mul_le_self _ _) (Nat.mod_lt _ (by decide))
    have hllt : roundup64 n (shl1 g.eraseShift) < 2 ^ 64 :=
      Nat.lt_of_le_of_lt (Nat.div_mul_le_self _ _) (Nat.mod_lt _ (by decide))
    generalize roundup64 (max lo g.start) (shl1 g.eraseShift) = rstart at *
    generalize LkHv.rounddown (min hi (g.start + g.size)) (shl1 g.eraseShift) = rend at *
    generalize roundup64 n (shl1 g.eraseShift) = len at *
    -- room in the region lies between the rounded ends
    have hroom : ∀ offset length, n ≤ length → RoomIn b lo hi g offset length →
        rstart ≤ offset ∧ offset + length ≤ rend ∧ len ≤ length := by
      intro offset length h1 h2
      have h3 := h2.lo
      have h4 := h2.hi
      have h5 := h2.start
      have h6 := h2.stop
      exact ⟨hs3 _ h2.erase.1 (by omega), he3 _ (Nat.dvd_add h2.erase.1 h2.erase.2) (by omega), hl3 _ h2.erase.2 h1⟩
    split
    · rename_i hfit
      refine .inr ⟨rfl, ?_⟩
      intro offset length _ h1 h2
      obtain ⟨h3, h4, h5⟩ := hroom offset length h1 h2
      unfold add64 at hfit
      omega
    · rename_i hfit
      have hsum : rstart + len ≤ rend := by
        unfold add64 at hfit
        omega
      refine .inl ⟨_, _, rfl, ?_⟩
      cases allocEnd with
      | true =>
        rw [if_pos rfl]
        refine ⟨⟨by omega, by omega, by omega, by omega, ⟨Nat.dvd_sub heb hlb, hlb⟩, ⟨Nat.dvd_sub he1 hl1, hl1⟩⟩,
          hl2, hl3, ?_⟩
        intro offset' length' _ h1 h2
        obtain ⟨h3, h4, h5⟩ := hroom offset' length' h1 h2
        show offset' ≤ rend - len
        omega
      | false =>
        rw [if_neg (by decide)]
        refine ⟨⟨by omega, by omega, by omega, by omega, ⟨hsb, hlb⟩, ⟨hs1, hl1⟩⟩, hl2, hl3, ?_⟩
        intro offset' length' _ h1 h2
        exact (hroom offset' length' h1 h2).1
  · rw [decide_eq_false ho]
    refine .inr ⟨rfl, ?_⟩
    intro offset length hpos _ h
    have h3 := h.lo
    have h4 := h.hi
    have h5 := h.start
    have h6 := h.stop
    omega

/-- the regions one after the other: the first one with room -/
theorem adjustInRegions_list (allocEnd : Bool) (hG : GapOk b lo hi) (hn : n ≤ hi - lo) (hd : 2 ^ b.blockShift ∣ n) :
    ∀ l : List EraseRegion, (∀ g ∈ l, RegionOk b g) →
    (∃ pre g post offset length, l = pre ++ g :: post ∧
      adjustInRegions lo (hi - lo) n allocEnd l = some (.ok (offset, length)) ∧
      Best b lo hi n allocEnd g offset length ∧ ∀ g' ∈ pre, NoRoom b lo hi n g') ∨
    (adjustInRegions lo (hi - lo) n allocEnd l = some (.error ERR_INVALID_ARGS) ∧ ∀ g ∈ l, NoRoom b lo hi n g)
  | [], _ => .inr ⟨rfl, fun _ h => by cases h⟩
  | g :: l, hl => by
    rcases adjustInRegions_cons allocEnd hG (hl g (.head _)) hn hd l with
      ⟨offset, length, h1, h2⟩ | ⟨h1, h2⟩
    · exact .inl ⟨[], g, l, offset, length, rfl, h1, h2, fun _ h => by cases h⟩
    · rw [h1]
      rcases adjustInRegions_list allocEnd hG hn hd l fun g' h => hl g' (.tail _ h) with
        ⟨pre, g', post, offset, length, rfl, h4, h5, h6⟩ | ⟨h4, h5⟩
      · exact .inl ⟨g :: pre, g', post, offset, length, rfl, h4, h5, List.forall_mem_cons.2 ⟨h2, h6⟩⟩
      · exact .inr ⟨h4, List.forall_mem_cons.2 ⟨h2, h5⟩⟩

/-- the best room of a gap, in whatever region it lies -/
structure BestOf (b : Bdev) (lo hi n : Nat) (allocEnd : Bool) (g : EraseRegion) (offset length : Nat) : Prop
    extends Best b lo hi n allocEnd g offset length where
  region : g ∈ regionsOf b
  all : ∀ g' ∈ regionsOf b, ∀ offset' length', 0 < length' → n ≤ length' → RoomIn b lo hi g' offset' length' →
    Before allocEnd offset offset'

/-- **One gap**: its best room, or none. -/
theorem adjust_best (H : GeometryOk b) (hG : GapOk b lo hi) (hd : 2 ^ b.blockShift ∣ n) (allocEnd : Bool) :
    (∃ g offset length, ptableAdjustRequest b lo (hi - lo) n allocEnd = some (.ok (offset, length)) ∧
      BestOf b lo hi n allocEnd g offset length) ∨
    ((∃ err, ptableAdjustRequest b lo (hi - lo) n allocEnd = some (.error err)) ∧
      ∀ g ∈ regionsOf b, NoRoom b lo hi n g) := by
  have hle := hG.le
  have hmask : ¬ (n &&& (2 ^ b.blockShift - 1) ≠ 0 ∨ lo &&& (2 ^ b.blockShift - 1) ≠ 0 ∨
      (hi - lo) &&& (2 ^ b.blockShift - 1) ≠ 0) := by
    rw [and_mask_ne, and_mask_ne, and_mask_ne]
    rintro (h | h | h)
    · exact h hd
    · exact h hG.block.1
    · exact h (Nat.dvd_sub hG.block.2 hG.block.1)
  unfold ptableAdjustRequest
  dsimp only
  rw [if_neg hmask, add64_of_inside (show lo + (hi - lo) ≤ b.totalSize by have := hG.inside; omega), if_neg (by omega)]
  by_cases hn : n > hi - lo
  · rw [if_pos hn]
    refine .inr ⟨⟨_, rfl⟩, ?_⟩
    intro g _ offset length _ h1 h2
    have h3 := h2.lo
    have h4 := h2.hi
    omega
  rw [if_neg hn]
  by_cases hgeo : b.geometry = []
  · -- the gap is the room
    rw [if_pos hgeo]
    have hin := hG.inside
    have hregions : regionsOf b = [wholeDevice b] := if_pos hgeo
    have hbest : Best b lo hi n allocEnd (wholeDevice b) (if allocEnd then lo + (hi - lo) - n else lo) n := by
      cases allocEnd with
      | true =>
        rw [if_pos rfl]
        have hsum : lo + (hi - lo) - n = hi - n := by omega
        have hd' := Nat.dvd_sub hG.block.2 hd
        rw [hsum]
        refine ⟨⟨by omega, by omega, Nat.zero_le _, ?_, ⟨hd', hd⟩, ⟨hd', hd⟩⟩, Nat.le_refl n, fun q _ h => h, ?_⟩
        · show hi - n + n ≤ 0 + b.totalSize
          omega
        · intro offset' length' _ h1 h2
          have := h2.hi
          show offset' ≤ hi - n
          omega
      | false =>
        rw [if_neg (by decide)]
        refine ⟨⟨Nat.le_refl lo, by omega, Nat.zero_le _, ?_, ⟨hG.block.1, hd⟩, ⟨hG.block.1, hd⟩⟩, Nat.le_refl n,
          fun q _ h => h, fun offset' length' _ _ h2 => h2.lo⟩
        show lo + n ≤ 0 + b.totalSize
        omega
    refine .inl ⟨wholeDevice b, _, n, rfl, hbest, ?_, ?_⟩
    · rw [hregions]
      exact .head _
    · intro g' hg'
      rw [hregions, List.mem_singleton] at hg'
      rw [hg']
      exact hbest.first
  · rw [if_neg hgeo]
    have hregions : regionsOf b = b.geometry := if_neg hgeo
    have hmem : ∀ g, g ∈ regionsOf b ↔ g ∈ if allocEnd then b.geometry.reverse else b.geometry := by
      intro g
      rw [hregions]
      cases allocEnd with
      | true => exact List.mem_reverse.symm
      | false => exact Iff.rfl
    rcases adjustInRegions_list allocEnd hG (by omega) hd
      (if allocEnd then b.geometry.reverse else b.geometry) (fun g hg => H.regionOk g ((hmem g).2 hg)) with
      ⟨pre, g, post, offset, length, hsplit, h1, h2, h3⟩ | ⟨h1, h2⟩
    · refine .inl ⟨g, offset, length, h1, h2, (hmem g).2 (by rw [hsplit]; simp), ?_⟩
      intro g' hg' offset' length' hpos hlong hroom
      rw [hmem, hsplit, List.mem_append, List.mem_cons] at hg'
      rcases hg' with hg' | rfl | hg'
      · exact absurd hroom (h3 g' hg' offset' length' hpos hlong)
      · exact h2.first offset' length' hpos hlong hroom
      · -- the regions behind it in the search lie on its other side
        have h4 := h2.room.start
        have h5 := h2.room.stop
        have h6 := hroom.start
        have h7 := hroom.stop
        have hp := H.apart
        cases allocEnd with
        | true =>
          rw [if_pos rfl] at hsplit
          rw [← List.pairwise_reverse, hsplit, List.pairwise_append, List.pairwise_cons] at hp
          have := hp.2.1.1 g' hg'
          show offset' ≤ offset
          omega
        | false =>
          rw [if_neg (by decide)] at hsplit
          rw [hsplit, List.pairwise_append, List.pairwise_cons] at hp
          have := hp.2.1.1 g' hg'
          show offset ≤ offset'
          omega
    · exact .inr ⟨⟨_, h1⟩, fun g hg => h2 g ((hmem g).1 hg)⟩

/-! ## the gaps -/

/-- the gaps from a byte on, between the entries and behind them -/
def gapsFrom (total lo : Nat) : List PtableEntry → List (Nat × Nat)
  | [] => if lo < total then [(lo, total)] else []
  | e :: l => (if lo < e.offset then [(lo, e.offset)] else []) ++ gapsFrom total e.stop l

/-- the gaps of a table -/
def gapsOf (b : Bdev) (list : List PtableEntry) : List (Nat × Nat) :=
  if list = [] then [(0, b.totalSize)] else gapsFrom b.totalSize 0 list

/-- the search of `ptable_allocate`, from gap to gap -/
def searchGaps (b : Bdev) (allocEnd : Bool) : Option Nat → Nat → List (Nat × Nat) → Except Int (Nat × Nat)
  | best, length, [] => bestOf best length
  | best, length, (lo, hi) :: gaps =>
    match ptableAdjustRequest b lo (hi - lo) length allocEnd with
    | some (.ok r) => if allocEnd then searchGaps b allocEnd (some r.1) r.2 gaps else .ok r
    | _ => searchGaps b allocEnd best length gaps

theorem RoomIn.mono {lo' hi' : Nat} (h : RoomIn b lo hi g offset length) (h1 : lo' ≤ lo) (h2 : hi ≤ hi') :
    RoomIn b lo' hi' g offset length :=
  ⟨h1.trans h.lo, h.hi.trans h2, h.start, h.stop, h.block, h.erase⟩

/-- entries in order behind a byte -/
structure Behind (b : Bdev) (lo : Nat) (l : List PtableEntry) : Prop extends Ordered b l where
  after : ∀ e ∈ l, lo ≤ e.offset
  inDev : lo ≤ b.totalSize
  atBlock : 2 ^ b.blockShift ∣ lo

theorem Behind.tail {e : PtableEntry} {l : List PtableEntry} (h : Behind b lo (e :: l)) : Behind b e.stop l := by
  obtain ⟨hao, hal⟩ := h.aligned e (.head _)
  obtain ⟨hafter, hpair⟩ := List.pairwise_cons.mp h.apart
  exact ⟨⟨hpair, fun a ha => h.inside a (.tail _ ha), fun a ha => h.aligned a (.tail _ ha)⟩, hafter,
    h.inside e (.head _), Nat.dvd_add hao hal⟩

theorem gapsFrom_ok : ∀ {l : List PtableEntry} {lo : Nat}, Behind b lo l →
    (∀ G ∈ gapsFrom b.totalSize lo l, GapOk b G.1 G.2 ∧ lo ≤ G.1) ∧
      (gapsFrom b.totalSize lo l).Pairwise fun G1 G2 => G1.2 ≤ G2.1
  | [], lo, h => by
    unfold gapsFrom
    split
    · refine ⟨?_, List.pairwise_singleton _ _⟩
      intro G hG
      rw [List.mem_singleton.1 hG]
      exact ⟨⟨h.inDev, Nat.le_refl _, h.atBlock, b.block_dvd_total⟩, Nat.le_refl _⟩
    · exact ⟨fun G hG => (by cases hG), .nil⟩
  | e :: l, lo, h => by
    have heo := h.after e (.head _)
    have hes : e.offset ≤ e.stop := Nat.le_add_right _ _
    have hei := h.inside e (.head _)
    obtain ⟨h1, h2⟩ := gapsFrom_ok h.tail
    have h3 : ∀ G ∈ gapsFrom b.totalSize e.stop l, GapOk b G.1 G.2 ∧ lo ≤ G.1 :=
      fun G hG => ⟨(h1 G hG).1, by have := (h1 G hG).2; omega⟩
    unfold gapsFrom
    split
    · refine ⟨List.forall_mem_cons.2 ⟨⟨⟨heo, by omega, h.atBlock, (h.aligned e (.head _)).1⟩, Nat.le_refl _⟩, h3⟩,
        List.pairwise_cons.2 ⟨?_, h2⟩⟩
      intro G hG
      exact hes.trans (h1 G hG).2
    · exact ⟨h3, h2⟩

/-- a range that is not empty lies in one gap if and only if it is free of entries -/
theorem gapsFrom_room (hpos : 0 < length) : ∀ {l : List PtableEntry} {lo : Nat}, Behind b lo l →
    ((∃ G ∈ gapsFrom b.totalSize lo l, RoomIn b G.1 G.2 g offset length) ↔
      RoomIn b lo b.totalSize g offset length ∧ ∀ e ∈ l, offset + length ≤ e.offset ∨ e.stop ≤ offset)
  | [], lo, h => by
    unfold gapsFrom
    split
    · constructor
      · rintro ⟨G, hG, hr⟩
        rw [List.mem_singleton.1 hG] at hr
        exact ⟨hr, fun e he => by cases he⟩
      · rintro ⟨hr, -⟩
        exact ⟨_, .head _, hr⟩
    · constructor
      · rintro ⟨G, hG, -⟩
        cases hG
      · rintro ⟨hr, -⟩
        have h1 := hr.lo
        have h2 := hr.hi
        omega
  | e :: l, lo, h => by
    have heo := h.after e (.head _)
    have hes : e.offset ≤ e.stop := Nat.le_add_right _ _
    have hei := h.inside e (.head _)
    have ih := gapsFrom_room hpos h.tail
    have hafter := h.tail.after
    have hhead : (∃ G ∈ (if lo < e.offset then [(lo, e.offset)] else []), RoomIn b G.1 G.2 g offset length) ↔
        RoomIn b lo e.offset g offset length := by
      split
      · constructor
        · rintro ⟨G, hG, hr⟩
          rw [List.mem_singleton.1 hG] at hr
          exact hr
        · exact fun hr => ⟨_, .head _, hr⟩
      · constructor
        · rintro ⟨G, hG, -⟩
          cases hG
        · intro hr
          have h1 := hr.lo
          have h2 := hr.hi
          omega
    have hsplit : (∃ G ∈ gapsFrom b.totalSize lo (e :: l), RoomIn b G.1 G.2 g offset length) ↔
        RoomIn b lo e.offset g offset length ∨
          (RoomIn b e.stop b.totalSize g offset length ∧ ∀ e ∈ l, offset + length ≤ e.offset ∨ e.stop ≤ offset) := by
      rw [← hhead, ← ih, gapsFrom]
      constructor
      · rintro ⟨G, hG, hr⟩
        rcases List.mem_append.1 hG with hG | hG
        · exact .inl ⟨G, hG, hr⟩
        · exact .inr ⟨G, hG, hr⟩
      · rintro (⟨G, hG, hr⟩ | ⟨G, hG, hr⟩)
        · exact ⟨G, List.mem_append_left _ hG, hr⟩
        · exact ⟨G, List.mem_append_right _ hG, hr⟩
    rw [hsplit]
    constructor
    · rintro (hr | ⟨hr, hfree⟩)
      · have h1 := hr.hi
        refine ⟨hr.mono (Nat.le_refl _) (by omega), List.forall_mem_cons.2 ⟨.inl h1, ?_⟩⟩
        intro a ha
        have := hafter a ha
        exact .inl (by omega)
      · exact ⟨hr.mono (by omega) (Nat.le_refl _), List.forall_mem_cons.2 ⟨.inr hr.lo, hfree⟩⟩
    · rintro ⟨hr, hfree⟩
      obtain ⟨h1 | h1, h2⟩ := List.forall_mem_cons.1 hfree
      · exact .inl ⟨hr.lo, h1, hr.start, hr.stop, hr.block, hr.erase⟩
      · exact .inr ⟨⟨h1, hr.hi, hr.start, hr.stop, hr.block, hr.erase⟩, h2⟩

/-- **The loop goes from gap to gap.** -/
theorem allocateLoop_eq (H : GeometryOk b) : ∀ {l : List PtableEntry} {last : Option PtableEntry} {best : Option Nat}
    {n lo : Nat}, regionStartOf last = lo → (last = none → l ≠ []) → Behind b lo l → 2 ^ b.blockShift ∣ n →
    ∀ p, allocateLoop b allocEnd last best n l = some (.ok p) ↔
      searchGaps b allocEnd best n (gapsFrom b.totalSize lo l) = .ok p
  | [], last, best, n, lo, hlo, hne, h, hd, p => by
    have htotal := b.total_lt
    have hin := h.inDev
    cases last with
    | none => exact absurd rfl (hne rfl)
    | some e =>
      have hsub : sub64 b.totalSize lo = b.totalSize - lo := sub64_of_le (by omega) hin
      have hgo : ¬ ((some e).isNone = true ∨ b.totalSize - lo ≥ 2 ^ 63) := by
        rintro (h | h)
        · cases h
        · omega
      rw [allocateLoop, gapsFrom]
      rw [hlo, hsub, if_neg hgo]
      by_cases hlt : lo < b.totalSize
      · rw [if_neg (by omega), if_pos hlt, searchGaps]
        rcases adjust_best H ⟨hin, Nat.le_refl _, h.atBlock, b.block_dvd_total⟩ hd allocEnd with
          ⟨g, offset, length, h1, -⟩ | ⟨⟨err, h1⟩, -⟩
        · rw [h1]
          dsimp only
          rw [Option.some.injEq]
          cases allocEnd <;> exact Iff.rfl
        · rw [h1]
          dsimp only
          rw [Option.some.injEq, searchGaps]
      · rw [if_pos (by omega), if_neg hlt, searchGaps, Option.some.injEq]
  | e :: l, last, best, n, lo, hlo, hne, h, hd, p => by
    have htotal := b.total_lt
    have heo := h.after e (.head _)
    have hes : e.offset ≤ e.stop := Nat.le_add_right _ _
    have hei := h.inside e (.head _)
    have hsub : sub64 e.offset lo = e.offset - lo := sub64_of_le (by omega) heo
    have hnext : ∀ {best : Option Nat} {n : Nat}, 2 ^ b.blockShift ∣ n →
        (allocateLoop b allocEnd (some e) best n l = some (.ok p) ↔
          searchGaps b allocEnd best n (gapsFrom b.totalSize e.stop l) = .ok p) :=
      fun hd => allocateLoop_eq H (regionStartOf_some hei) (fun h => by cases h) h.tail hd p
    rw [allocateLoop, gapsFrom]
    rw [hlo, hsub, if_neg (by omega)]
    by_cases hlt : lo < e.offset
    · rw [if_neg (by omega), if_pos hlt, List.singleton_append, searchGaps]
      rcases adjust_best H ⟨heo, by omega, h.atBlock, (h.aligned e (.head _)).1⟩ hd allocEnd with
        ⟨g, offset, length, h1, h2⟩ | ⟨⟨err, h1⟩, -⟩
      · rw [h1]
        dsimp only
        cases allocEnd with
        | true =>
          rw [if_pos rfl, if_pos rfl]
          exact hnext h2.room.block.2
        | false => rw [if_neg (by decide), if_neg (by decide), Option.some.injEq]
      · rw [h1]
        exact hnext hd
    · rw [if_pos (by omega), if_neg hlt, List.nil_append]
      exact hnext hd

theorem Ordered.behind (h : Ordered b list) : Behind b 0 list :=
  ⟨h, fun _ _ => Nat.zero_le _, Nat.zero_le _, Nat.dvd_zero _⟩

theorem gapsOf_ok (h : Ordered b list) :
    (∀ G ∈ gapsOf b list, GapOk b G.1 G.2) ∧ (gapsOf b list).Pairwise fun G1 G2 => G1.2 ≤ G2.1 := by
  unfold gapsOf
  split
  · refine ⟨?_, List.pairwise_singleton _ _⟩
    intro G hG
    rw [List.mem_singleton.1 hG]
    exact ⟨Nat.zero_le _, Nat.le_refl _, Nat.dvd_zero _, b.block_dvd_total⟩
  · obtain ⟨h1, h2⟩ := gapsFrom_ok h.behind
    exact ⟨fun G hG => (h1 G hG).1, h2⟩

theorem gapsOf_room (h : Ordered b list) (hpos : 0 < length) :
    (∃ G ∈ gapsOf b list, RoomIn b G.1 G.2 g offset length) ↔
      RoomIn b 0 b.totalSize g offset length ∧ ∀ e ∈ list, offset + length ≤ e.offset ∨ e.stop ≤ offset := by
  unfold gapsOf
  split
  · rename_i hl
    constructor
    · rintro ⟨G, hG, hr⟩
      rw [List.mem_singleton.1 hG] at hr
      exact ⟨hr, fun e he => by rw [hl] at he; cases he⟩
    · rintro ⟨hr, -⟩
      exact ⟨_, .head _, hr⟩
  · exact gapsFrom_room hpos h.behind

theorem allocate_ok_iff (H : GeometryOk b) (h : Ordered b list) (p : Nat × Nat) :
    ptableAllocate b list n allocEnd = some (.ok p) ↔
      searchGaps b allocEnd none (roundup64 n (2 ^ b.blockShift)) (gapsOf b list) = .ok p := by
  have hd := roundup_dvd b n
  unfold ptableAllocate gapsOf
  dsimp only
  split
  · rw [searchGaps]
    rcases adjust_best H ⟨Nat.zero_le _, Nat.le_refl _, Nat.dvd_zero _, b.block_dvd_total⟩ hd allocEnd with
      ⟨g, offset, length, h1, -⟩ | ⟨⟨err, h1⟩, -⟩
    · rw [Nat.sub_zero] at h1
      rw [Nat.sub_zero, h1]
      dsimp only
      rw [Option.some.injEq]
      cases allocEnd <;> exact Iff.rfl
    · rw [Nat.sub_zero] at h1
      rw [Nat.sub_zero, h1]
      constructor <;> (intro h; cases h)
  · rename_i hl
    exact allocateLoop_eq H (show regionStartOf none = 0 from rfl) (fun _ => hl) h.behind hd p

/-! ## the search -/

/-- the gap takes a request of `n` bytes -/
def Takes (b : Bdev) (allocEnd : Bool) (n : Nat) (G : Nat × Nat) (p : Nat × Nat) : Prop :=
  ptableAdjustRequest b G.1 (G.2 - G.1) n allocEnd = some (.ok p)

/-- the length of the request behind some gaps, when the search goes to the end: every gap that takes it leaves it as
long as its erase region rounds it -/
def enlarge (b : Bdev) : List (Nat × Nat) → Nat → Nat
  | [], n => n
  | G :: gaps, n =>
    match ptableAdjustRequest b G.1 (G.2 - G.1) n true with
    | some (.ok r) => enlarge b gaps r.2
    | _ => enlarge b gaps n

variable {G : Nat × Nat} {gaps pre post : List (Nat × Nat)} {best : Option Nat}

theorem takes_best (H : GeometryOk b) (hG : GapOk b G.1 G.2) (hd : 2 ^ b.blockShift ∣ n)
    (h : Takes b allocEnd n G (offset, length)) : ∃ g, BestOf b G.1 G.2 n allocEnd g offset length := by
  rcases adjust_best H hG hd allocEnd with ⟨g, o, l, h1, h2⟩ | ⟨⟨err, h1⟩, -⟩
  · rw [Takes, h1] at h
    cases h
    exact ⟨g, h2⟩
  · rw [Takes, h1] at h
    cases h

theorem not_takes (H : GeometryOk b) (hG : GapOk b G.1 G.2) (hd : 2 ^ b.blockShift ∣ n)
    (h : ∀ p, ¬ Takes b allocEnd n G p) : ∀ g ∈ regionsOf b, NoRoom b G.1 G.2 n g := by
  rcases adjust_best H hG hd allocEnd with ⟨g, o, l, h1, -⟩ | ⟨-, h2⟩
  · exact absurd h1 (h (o, l))
  · exact h2

theorem searchGaps_takes {p : Nat × Nat} (h : Takes b allocEnd n G p) : searchGaps b allocEnd best n (G :: gaps) =
    if allocEnd then searchGaps b allocEnd (some p.1) p.2 gaps else .ok p := by
  obtain ⟨lo, hi⟩ := G
  rw [Takes] at h
  rw [searchGaps, h]

theorem searchGaps_skip (h : ∀ p, ¬ Takes b allocEnd n G p) :
    searchGaps b allocEnd best n (G :: gaps) = searchGaps b allocEnd best n gaps := by
  obtain ⟨lo, hi⟩ := G
  rw [searchGaps]
  split
  · rename_i r hr
    exact absurd hr (h r)
  · rfl

theorem searchGaps_none : ∀ {gaps : List (Nat × Nat)}, (∀ G ∈ gaps, ∀ p, ¬ Takes b allocEnd n G p) →
    searchGaps b allocEnd best n gaps = bestOf best n
  | [], _ => rfl
  | G :: gaps, h => by rw [searchGaps_skip (h G (.head _)), searchGaps_none fun G hG => h G (.tail _ hG)]

theorem enlarge_takes {p : Nat × Nat} (h : Takes b true n G p) : enlarge b (G :: gaps) n = enlarge b gaps p.2 := by
  rw [Takes] at h
  rw [enlarge, h]

theorem enlarge_skip (h : ∀ p, ¬ Takes b true n G p) : enlarge b (G :: gaps) n = enlarge b gaps n := by
  rw [enlarge]
  split
  · rename_i r hr
    exact absurd hr (h r)
  · rfl

/-- a request only grows, by whole blocks -/
theorem enlarge_spec (H : GeometryOk b) : ∀ {gaps : List (Nat × Nat)} {n : Nat}, (∀ G ∈ gaps, GapOk b G.1 G.2) →
    2 ^ b.blockShift ∣ n → n ≤ enlarge b gaps n ∧ 2 ^ b.blockShift ∣ enlarge b gaps n
  | [], n, _, hd => ⟨Nat.le_refl _, hd⟩
  | G :: gaps, n, hG, hd => by
    have hrest := fun G' h => hG G' (.tail _ h)
    by_cases h : ∃ p, Takes b true n G p
    · obtain ⟨⟨offset, length⟩, h⟩ := h
      obtain ⟨g, hb⟩ := takes_best H (hG G (.head _)) hd h
      obtain ⟨h1, h2⟩ := enlarge_spec H hrest hb.room.block.2
      rw [enlarge_takes h]
      exact ⟨hb.long.trans h1, h2⟩
    · rw [enlarge_skip fun p hp => h ⟨p, hp⟩]
      exact enlarge_spec H hrest hd

/-- what a search over some gaps leaves to the others -/
theorem searchGaps_append (b : Bdev) (gaps : List (Nat × Nat)) : ∀ (pre : List (Nat × Nat)) (best : Option Nat) (n : Nat),
    ∃ best', searchGaps b true best n (pre ++ gaps) = searchGaps b true best' (enlarge b pre n) gaps
  | [], best, n => ⟨best, rfl⟩
  | G :: pre, best, n => by
    rw [List.cons_append]
    by_cases h : ∃ p, Takes b true n G p
    · obtain ⟨p, h⟩ := h
      rw [searchGaps_takes h, if_pos rfl, enlarge_takes h]
      exact searchGaps_append b gaps pre _ _
    · rw [searchGaps_skip fun p hp => h ⟨p, hp⟩, enlarge_skip fun p hp => h ⟨p, hp⟩]
      exact searchGaps_append b gaps pre _ _

theorem searchGaps_long (H : GeometryOk b) : ∀ {gaps : List (Nat × Nat)} {best : Option Nat} {n : Nat},
    (∀ G ∈ gaps, GapOk b G.1 G.2) → 2 ^ b.blockShift ∣ n →
    searchGaps b allocEnd best n gaps = .ok (offset, length) → n ≤ length
  | [], best, n, _, _, h => by
    cases best with
    | none => cases h
    | some o =>
      cases h
      exact Nat.le_refl _
  | G :: gaps, best, n, hG, hd, h => by
    have hrest := fun G' h => hG G' (.tail _ h)
    by_cases ht : ∃ p, Takes b allocEnd n G p
    · obtain ⟨⟨o, l⟩, ht⟩ := ht
      obtain ⟨g, hb⟩ := takes_best H (hG G (.head _)) hd ht
      rw [searchGaps_takes ht] at h
      by_cases he : allocEnd = true
      · rw [if_pos he] at h
        exact hb.long.trans (searchGaps_long H hrest hb.room.block.2 h)
      · rw [if_neg he] at h
        cases h
        exact hb.long
    · rw [searchGaps_skip fun p hp => ht ⟨p, hp⟩] at h
      exact searchGaps_long H hrest hd h

/-! ## the right place -/

/-- the best room of the first gap that has any, or with `allocEnd` of the last one -/
structure Taken (b : Bdev) (gaps : List (Nat × Nat)) (n : Nat) (allocEnd : Bool) (offset length : Nat)
    (pre : List (Nat × Nat)) (G : Nat × Nat) (post : List (Nat × Nat)) (g : EraseRegion) : Prop where
  split : gaps = pre ++ G :: post
  best : BestOf b G.1 G.2 n allocEnd g offset length
  none : ∀ G' ∈ (if allocEnd then post else pre), ∀ g ∈ regionsOf b, NoRoom b G'.1 G'.2 n g

/-- what a request is rounded up to, if that is not lost in 64 bits -/
theorem request_spec (hn : n < 2 ^ 64) (h0 : roundup64 n (2 ^ b.blockShift) ≠ 0) :
    n ≤ roundup64 n (2 ^ b.blockShift) ∧ ∀ q, 2 ^ b.blockShift ∣ q → n ≤ q → roundup64 n (2 ^ b.blockShift) ≤ q := by
  have hpos : 0 < 2 ^ b.blockShift := Nat.two_pow_pos _
  have hle := b.block_le
  have hlt : n + (2 ^ b.blockShift - 1) < 2 ^ 64 := by
    by_contra hge
    apply h0
    unfold roundup64
    rw [Nat.div_eq_of_lt (by omega), Nat.zero_mul]
  exact (roundup64_spec hpos hlt).2

theorem pow_dvd_max (i j : Nat) : 2 ^ i ∣ max (2 ^ i) (2 ^ j) ∧ 2 ^ j ∣ max (2 ^ i) (2 ^ j) := by
  rcases Nat.le_total i j with h | h
  · have hd : 2 ^ i ∣ 2 ^ j := Nat.pow_dvd_pow 2 h
    rw [Nat.max_eq_right (Nat.le_of_dvd (Nat.two_pow_pos j) hd)]
    exact ⟨hd, Nat.dvd_refl _⟩
  · have hd : 2 ^ j ∣ 2 ^ i := Nat.pow_dvd_pow 2 h
    rw [Nat.max_eq_left (Nat.le_of_dvd (Nat.two_pow_pos i) hd)]
    exact ⟨Nat.dvd_refl _, hd⟩

theorem dvd_of_both {i j m : Nat} (h1 : 2 ^ i ∣ m) (h2 : 2 ^ j ∣ m) : max (2 ^ i) (2 ^ j) ∣ m := by
  rcases Nat.le_total (2 ^ i) (2 ^ j) with h | h
  · rwa [Nat.max_eq_right h]
  · rwa [Nat.max_eq_left h]

/-- the right place is the lowest or the highest -/
theorem Taken.first (hO : Ordered b list) {L : Nat} (hL : ∀ q, 2 ^ b.blockShift ∣ q → n ≤ q → L ≤ q)
    (h : Taken b (gapsOf b list) L allocEnd offset length pre G post g) {g' : EraseRegion} (hg' : g' ∈ regionsOf b)
    {offset' length' : Nat} (hr : Room b list n g' offset' length') : Before allocEnd offset offset' := by
  obtain ⟨hok, hp⟩ := gapsOf_ok hO
  obtain ⟨G', hG', hin⟩ := (gapsOf_room hO hr.pos).2 ⟨hr.room, hr.free⟩
  have hlong := hL length' hr.room.block.2 hr.long
  have h1 := h.best.room.lo
  have h2 := h.best.room.hi
  have h3 := hin.lo
  have h4 := hin.hi
  have hno : ∀ G' ∈ (if allocEnd then post else pre), RoomIn b G'.1 G'.2 g' offset' length' → False :=
    fun G' hG' hin => h.none G' hG' g' hg' offset' length' hr.pos hlong hin
  rw [h.split, List.pairwise_append, List.pairwise_cons] at hp
  rw [h.split, List.mem_append, List.mem_cons] at hG'
  rcases hG' with hG' | rfl | hG'
  · cases allocEnd with
    | true =>
      have := hp.2.2 G' hG' G (.head _)
      show offset' ≤ offset
      omega
    | false => exact (hno G' hG' hin).elim
  · exact h.best.all g' hg' offset' length' hr.pos hlong hin
  · cases allocEnd with
    | true => exact (hno G' hG' hin).elim
    | false =>
      have := hp.2.1.1 G' hG'
      show offset ≤ offset'
      omega

theorem Taken.room (hO : Ordered b list) {L : Nat} (hL : 0 < L) (hn : n ≤ L)
    (h : Taken b (gapsOf b list) L allocEnd offset length pre G post g) : Room b list n g offset length := by
  have hlong := h.best.long
  have hmem : G ∈ gapsOf b list := by
    rw [h.split]
    exact List.mem_append_right _ (.head _)
  obtain ⟨h1, h2⟩ := (gapsOf_room hO (show 0 < length by omega)).1 ⟨G, hmem, h.best.room⟩
  exact ⟨by omega, by omega, h1, h2⟩

/-- the right place is as short as can be -/
theorem Taken.short {L : Nat} (hL : ∀ q, 2 ^ b.blockShift ∣ q → n ≤ q → L ≤ q)
    (h : Taken b gaps L allocEnd offset length pre G post g) : length < n + max b.blockSize g.eraseSize := by
  rw [b.blockSize_eq, g.eraseSize_eq]
  have hd := dvd_of_both h.best.room.block.2 h.best.room.erase.2
  have hpos : 0 < max (2 ^ b.blockShift) (2 ^ g.eraseShift) :=
    Nat.lt_of_lt_of_le (Nat.two_pow_pos b.blockShift) (Nat.le_max_left _ _)
  obtain ⟨h1, h2⟩ := pow_dvd_max b.blockShift g.eraseShift
  generalize max (2 ^ b.blockShift) (2 ^ g.eraseShift) = m at *
  by_contra hge
  have h3 := hL (length - m) (Nat.dvd_sub h.best.room.block.2 h1) (by omega)
  have h4 := h.best.least (length - m) (Nat.dvd_sub h.best.room.erase.2 h2) h3
  omega

/-- **The allocator is right if and only if it answers with the right place.** -/
theorem Taken.right_iff (H : GeometryOk b) (hO : Ordered b list) {L : Nat} (hpos : 0 < L) (hn : n ≤ L)
    (hL : ∀ q, 2 ^ b.blockShift ∣ q → n ≤ q → L ≤ q)
    (h : Taken b (gapsOf b list) L allocEnd offset length pre G post g) (r : Option (Except Int (Nat × Nat))) :
    AllocRight b list n allocEnd r ↔ r = some (.ok (offset, length)) := by
  have hroom := h.room hO hpos hn
  constructor
  · intro hr
    obtain ⟨⟨o, l⟩, hp⟩ := hr.found.2 ⟨g, h.best.region, offset, length, hroom⟩
    obtain ⟨g', hg', hroom', hshort, hfirst⟩ := hr.place o l hp
    have ho : o = offset := by
      have h1 := hfirst g h.best.region offset length hroom
      have h2 := h.first hO hL hg' hroom'
      cases allocEnd with
      | true => exact Nat.le_antisymm h2 h1
      | false => exact Nat.le_antisymm h1 h2
    subst ho
    have h1 := hroom.room.start
    have h2 := hroom.room.stop
    have h3 := hroom'.room.start
    have h4 := hroom'.room.stop
    have h5 := hroom.pos
    have h6 := hroom'.pos
    have hin : g.start ≤ o ∧ o < g.start + g.size := ⟨h1, by omega⟩
    have hin' : g'.start ≤ o ∧ o < g'.start + g'.size := ⟨h3, by omega⟩
    obtain rfl := H.region_eq h.best.region hg' hin hin'
    have h7 := h.best.least l hroom'.room.erase.2 (hL l hroom'.room.block.2 hroom'.long)
    -- a longer one is longer by a unit at least
    have hl : l = length := by
      by_contra hne
      have hd := dvd_of_both (Nat.dvd_sub hroom'.room.block.2 hroom.room.block.2)
        (Nat.dvd_sub hroom'.room.erase.2 hroom.room.erase.2)
      have h8 := Nat.le_of_dvd (by omega) hd
      rw [b.blockSize_eq, g.eraseSize_eq] at hshort
      have := hroom.long
      omega
    rw [hp, hl]
  · rintro rfl
    refine ⟨⟨fun _ => ⟨g, h.best.region, offset, length, hroom⟩, fun _ => ⟨_, rfl⟩⟩, ?_⟩
    intro o l hp
    cases hp
    exact ⟨g, h.best.region, hroom, h.short hL, fun g' hg' o' l' hr => h.first hO hL hg' hr⟩

/-! ## the allocator -/

/-- the last gap that takes a request, or none -/
theorem exists_last (gaps : List (Nat × Nat)) (P : Nat × Nat → Prop) :
    (∀ G ∈ gaps, ¬ P G) ∨ ∃ pre G post, gaps = pre ++ G :: post ∧ P G ∧ ∀ G' ∈ post, ¬ P G' := by
  induction gaps with
  | nil => exact .inl fun G h => by cases h
  | cons G gaps ih =>
    rcases ih with h | ⟨pre, G', post, rfl, h1, h2⟩
    · by_cases hG : P G
      · exact .inr ⟨[], G, gaps, rfl, hG, h⟩
      · exact .inl (List.forall_mem_cons.2 ⟨hG, h⟩)
    · exact .inr ⟨G :: pre, G', post, rfl, h1, h2⟩

theorem exists_first (gaps : List (Nat × Nat)) (P : Nat × Nat → Prop) :
    (∀ G ∈ gaps, ¬ P G) ∨ ∃ pre G post, gaps = pre ++ G :: post ∧ P G ∧ ∀ G' ∈ pre, ¬ P G' := by
  induction gaps with
  | nil => exact .inl fun G h => by cases h
  | cons G gaps ih =>
    by_cases hG : P G
    · exact .inr ⟨[], G, gaps, rfl, hG, fun G' h => by cases h⟩
    · rcases ih with h | ⟨pre, G', post, rfl, h1, h2⟩
      · exact .inl (List.forall_mem_cons.2 ⟨hG, h⟩)
      · exact .inr ⟨G :: pre, G', post, rfl, h1, List.forall_mem_cons.2 ⟨hG, h2⟩⟩

/-- a gap that takes a request takes a longer one as well, up to what it rounds it to -/
theorem takes_longer (H : GeometryOk b) (hG : GapOk b G.1 G.2) (hd : 2 ^ b.blockShift ∣ n) (hpos : 0 < n) {m : Nat}
    (hm : 2 ^ b.blockShift ∣ m) (h : Takes b true n G (offset, length)) (h1 : n ≤ m) (h2 : m ≤ length) :
    Takes b true m G (offset, length) := by
  obtain ⟨g, hb⟩ := takes_best H hG hd h
  rcases adjust_best H hG hm true with ⟨g', o, l, h3, hb'⟩ | ⟨-, h3⟩
  · have hl := hb'.long
    have ho : o = offset := Nat.le_antisymm (hb.all g' hb'.region o l (by omega) (by omega) hb'.room)
      (hb'.all g hb.region offset length (by omega) h2 hb.room)
    subst ho
    have hin : g.start ≤ o ∧ o < g.start + g.size := ⟨hb.room.start, by have := hb.room.stop; omega⟩
    have hin' : g'.start ≤ o ∧ o < g'.start + g'.size := ⟨hb'.room.start, by have := hb'.room.stop; omega⟩
    obtain rfl := H.region_eq hb.region hb'.region hin hin'
    have h4 := hb'.least length hb.room.erase.2 h2
    have h5 := hb.least l hb'.room.erase.2 (by omega)
    rw [Takes, h3, Nat.le_antisymm h4 h5]
  · exact absurd hb.room (h3 g hb.region offset length (by omega) h2)

theorem not_takes_longer (H : GeometryOk b) (hG : GapOk b G.1 G.2) (hd : 2 ^ b.blockShift ∣ n) (hpos : 0 < n) {m : Nat}
    (hm : 2 ^ b.blockShift ∣ m) (h : ∀ p, ¬ Takes b allocEnd n G p) (h1 : n ≤ m) : ∀ p, ¬ Takes b allocEnd m G p := by
  rintro ⟨offset, length⟩ ht
  obtain ⟨g, hb⟩ := takes_best H hG hm ht
  have hl := hb.long
  exact not_takes H hG hd h g hb.region offset length (by omega) (by omega) hb.room

/-- from the front the first gap that takes the request is taken -/
theorem searchGaps_front {p : Nat × Nat} : ∀ {pre : List (Nat × Nat)}, (∀ G' ∈ pre, ∀ p, ¬ Takes b false n G' p) →
    Takes b false n G p → searchGaps b false best n (pre ++ G :: post) = .ok p
  | [], _, h => by
    rw [List.nil_append, searchGaps_takes h]
    rfl
  | G' :: pre, hpre, h => by
    rw [List.cons_append, searchGaps_skip (hpre G' (.head _))]
    exact searchGaps_front (fun G'' hG => hpre G'' (.tail _ hG)) h

/-- an empty request stays empty -/
theorem searchGaps_zero (H : GeometryOk b) : ∀ {gaps : List (Nat × Nat)} {best : Option Nat},
    (∀ G ∈ gaps, GapOk b G.1 G.2) → (best ≠ none ∨ ∃ G ∈ gaps, ∃ p, Takes b allocEnd 0 G p) →
    ∃ o, searchGaps b allocEnd best 0 gaps = .ok (o, 0)
  | [], best, _, h => by
    rcases h with h | ⟨G, hG, -⟩
    · obtain ⟨o, rfl⟩ := Option.ne_none_iff_exists'.1 h
      exact ⟨o, rfl⟩
    · cases hG
  | G :: gaps, best, hG, h => by
    have hrest := fun G' h => hG G' (.tail _ h)
    by_cases ht : ∃ p, Takes b allocEnd 0 G p
    · obtain ⟨⟨o, l⟩, ht⟩ := ht
      obtain ⟨g, hb⟩ := takes_best H (hG G (.head _)) (Nat.dvd_zero _) ht
      obtain rfl : l = 0 := Nat.le_zero.1 (hb.least 0 (Nat.dvd_zero _) (Nat.le_refl 0))
      rw [searchGaps_takes ht]
      by_cases he : allocEnd = true
      · rw [if_pos he]
        exact searchGaps_zero H hrest (.inl (Option.some_ne_none o))
      · rw [if_neg he]
        exact ⟨o, rfl⟩
    · have hskip : ∀ p, ¬ Takes b allocEnd 0 G p := fun p hp => ht ⟨p, hp⟩
      rw [searchGaps_skip hskip]
      apply searchGaps_zero H hrest
      rcases h with h | ⟨G', hG', p, hp⟩
      · exact .inl h
      · rcases List.mem_cons.1 hG' with rfl | hG'
        · exact absurd hp (hskip p)
        · exact .inr ⟨G', hG', p, hp⟩

/-- **When the allocator is right.**  Towards the end, the request as the earlier gaps have left it is no longer than
what the last gap with room for it rounds it to.  And a request of nothing, or one that is lost in 64 bits when it is
rounded up to blocks, is taken by no gap. -/
def AllocWhen (b : Bdev) (list : List PtableEntry) (n : Nat) (allocEnd : Bool) : Prop :=
  if roundup64 n (2 ^ b.blockShift) = 0 then ∀ G ∈ gapsOf b list, ∀ p, ¬ Takes b allocEnd 0 G p
  else allocEnd = true → ∀ pre G post offset length, gapsOf b list = pre ++ G :: post →
    Takes b true (roundup64 n (2 ^ b.blockShift)) G (offset, length) →
      (∀ G' ∈ post, ∀ p, ¬ Takes b true (roundup64 n (2 ^ b.blockShift)) G' p) →
        enlarge b pre (roundup64 n (2 ^ b.blockShift)) ≤ length

theorem allocRight_of_not_takes (H : GeometryOk b) (hO : Ordered b list) {L : Nat} (hd : 2 ^ b.blockShift ∣ L)
    (hL : ∀ q, 2 ^ b.blockShift ∣ q → 0 < q → n ≤ q → L ≤ q)
    (h : ∀ G ∈ gapsOf b list, ∀ p, ¬ Takes b allocEnd L G p) {r : Option (Except Int (Nat × Nat))}
    (hr : ∀ p, r ≠ some (.ok p)) : AllocRight b list n allocEnd r := by
  refine ⟨⟨fun ⟨p, hp⟩ => absurd hp (hr p), ?_⟩, fun o l hp => absurd hp (hr (o, l))⟩
  rintro ⟨g, hg, o, l, hroom⟩
  obtain ⟨G, hG, hin⟩ := (gapsOf_room hO hroom.pos).2 ⟨hroom.room, hroom.free⟩
  exact absurd hin (not_takes H ((gapsOf_ok hO).1 G hG) hd (h G hG) g hg o l hroom.pos
    (hL l hroom.room.block.2 hroom.pos hroom.long))

/-- **`ptable_allocate`**, for a request of any length. -/
theorem allocate_right_iff (H : GeometryOk b) (hO : Ordered b list) (n : UInt64) (allocEnd : Bool) :
    AllocRight b list n.toNat allocEnd (ptableAllocate b list n.toNat allocEnd) ↔
      AllocWhen b list n.toNat allocEnd := by
  have hn := n.toNat_lt
  obtain ⟨hok, -⟩ := gapsOf_ok hO
  have hd := roundup_dvd b n.toNat
  unfold AllocWhen
  by_cases h0 : roundup64 n.toNat (2 ^ b.blockShift) = 0
  · rw [if_pos h0]
    constructor
    · intro hr G hG p hp
      have hz : ∃ o, searchGaps b allocEnd none 0 (gapsOf b list) = .ok (o, 0) :=
        searchGaps_zero H hok (.inr ⟨G, hG, p, hp⟩)
      obtain ⟨o, ho⟩ := hz
      obtain ⟨g, -, hroom, -⟩ := hr.place o 0 ((allocate_ok_iff H hO (o, 0)).2 (by rw [h0, ho]))
      exact absurd hroom.pos (lt_irrefl 0)
    · intro h
      refine allocRight_of_not_takes H hO (Nat.dvd_zero _) (fun q _ _ _ => Nat.zero_le q) h ?_
      intro p hp
      rw [allocate_ok_iff H hO, h0, searchGaps_none h] at hp
      cases hp
  rw [if_neg h0]
  obtain ⟨hlong, hleast⟩ := request_spec hn h0
  generalize hL : roundup64 n.toNat (2 ^ b.blockShift) = L at *
  have hpos : 0 < L := Nat.pos_of_ne_zero h0
  -- no gap takes the request
  have hnone : (∀ G ∈ gapsOf b list, ¬ ∃ p, Takes b allocEnd L G p) →
      AllocRight b list n.toNat allocEnd (ptableAllocate b list n.toNat allocEnd) := by
    intro h
    have h' : ∀ G ∈ gapsOf b list, ∀ p, ¬ Takes b allocEnd L G p := fun G hG p hp => h G hG ⟨p, hp⟩
    refine allocRight_of_not_takes H hO hd (fun q h1 _ h2 => hleast q h1 h2) h' ?_
    intro p hp
    rw [allocate_ok_iff H hO, hL, searchGaps_none h'] at hp
    cases hp
  -- the gap with the best room
  have htaken : ∀ {pre G post offset length}, gapsOf b list = pre ++ G :: post → Takes b allocEnd L G (offset, length) →
      (∀ G' ∈ (if allocEnd then post else pre), ∀ p, ¬ Takes b allocEnd L G' p) →
      ∃ g, Taken b (gapsOf b list) L allocEnd offset length pre G post g := by
    intro pre G post offset length hsplit hp hnot
    have hmem : ∀ G' ∈ (if allocEnd then post else pre), G' ∈ gapsOf b list := by
      intro G' hG'
      rw [hsplit]
      cases allocEnd with
      | true => exact List.mem_append_right _ (.tail _ hG')
      | false => exact List.mem_append_left _ hG'
    obtain ⟨g, hb⟩ := takes_best H (hok G (by rw [hsplit]; exact List.mem_append_right _ (.head _))) hd hp
    exact ⟨g, hsplit, hb, fun G' hG' => not_takes H (hok G' (hmem G' hG')) hd (hnot G' hG')⟩
  cases allocEnd with
  | false =>
    refine ⟨fun _ h => absurd h (by decide), fun _ => ?_⟩
    rcases exists_first (gapsOf b list) fun G => ∃ p, Takes b false L G p with
      h | ⟨pre, G, post, hsplit, ⟨⟨o, l⟩, hp⟩, hpre⟩
    · exact hnone h
    · have hpre' : ∀ G' ∈ pre, ∀ p, ¬ Takes b false L G' p := fun G' hG' p hp => hpre G' hG' ⟨p, hp⟩
      obtain ⟨g, ht⟩ := htaken hsplit hp hpre'
      rw [ht.right_iff H hO hpos hlong hleast, allocate_ok_iff H hO, hL, hsplit]
      exact searchGaps_front hpre' hp
  | true =>
    constructor
    · intro hr _ pre G post o l hsplit hp hpost
      obtain ⟨g, ht⟩ := htaken hsplit hp hpost
      rw [ht.right_iff H hO hpos hlong hleast, allocate_ok_iff H hO, hL, hsplit] at hr
      obtain ⟨best', hs⟩ := searchGaps_append b (G :: post) pre none L
      rw [hs] at hr
      have hin : ∀ G' ∈ pre, GapOk b G'.1 G'.2 := fun G' h => hok G' (by rw [hsplit]; exact List.mem_append_left _ h)
      exact searchGaps_long H (fun G' h => hok G' (by rw [hsplit]; exact List.mem_append_right _ h))
        (enlarge_spec H hin hd).2 hr
    · intro hc
      rcases exists_last (gapsOf b list) fun G => ∃ p, Takes b true L G p with
        h | ⟨pre, G, post, hsplit, ⟨⟨o, l⟩, hp⟩, hpost⟩
      · exact hnone h
      · have hpost' : ∀ G' ∈ post, ∀ p, ¬ Takes b true L G' p := fun G' hG' p hp => hpost G' hG' ⟨p, hp⟩
        have hin : ∀ G' ∈ pre, GapOk b G'.1 G'.2 :=
          fun G' h => hok G' (by rw [hsplit]; exact List.mem_append_left _ h)
        have hG : GapOk b G.1 G.2 := hok G (by rw [hsplit]; exact List.mem_append_right _ (.head _))
        obtain ⟨g, ht⟩ := htaken hsplit hp hpost'
        obtain ⟨h1, h2⟩ := enlarge_spec H hin hd
        have h3 := hc rfl pre G post o l hsplit hp hpost'
        have hp' := takes_longer H hG hd hpos h2 hp h1 h3
        obtain ⟨best', hs⟩ := searchGaps_append b (G :: post) pre none L
        rw [ht.right_iff H hO hpos hlong hleast, allocate_ok_iff H hO, hL, hsplit, hs, searchGaps_takes hp',
          if_pos rfl, searchGaps_none]
        · rfl
        · intro G' hG'
          exact not_takes_longer H (hok G' (by rw [hsplit]; exact List.mem_append_right _ (.tail _ hG'))) hd hpos
            ht.best.room.block.2 (hpost' G' hG') ht.best.long

end

/-- 8 bytes in a unit of 8, and 16 bytes in units of 2 -/
def twoRegions : Bdev where
  blockSize := 1
  blockShift := 0
  blockCount := 24
  totalSize := 24
  geometry := [⟨0, 8, 8, 3, rfl⟩, ⟨8, 16, 2, 1, rfl⟩]
  shift_lt := by decide
  count_lt := by decide
  blockSize_eq := rfl
  total_eq := rfl
  regions := by decide

/-- gaps from 0 to 8 and from 10 to 12 -/
def twoEntries : List PtableEntry := [⟨8, 2, 0, []⟩, ⟨12, 12, 0, []⟩]

theorem twoRegions_ok : GeometryOk twoRegions := ⟨by decide, by decide, by decide, by decide⟩

theorem twoEntries_ordered : Ordered twoRegions twoEntries := ⟨by decide, by decide, by decide⟩

theorem allocate_right_twoRegions : AllocRight twoRegions twoEntries (1 : UInt64).toNat false
    (ptableAllocate twoRegions twoEntries (1 : UInt64).toNat false) ↔
      AllocWhen twoRegions twoEntries (1 : UInt64).toNat false :=
  allocate_right_iff twoRegions_ok twoEntries_ordered 1 false

/-- towards the end a request of 1 byte is 8 bytes long behind the first gap, and the 2 bytes of the second one that
would hold it are passed over -/
theorem allocate_right_fails : ¬ ∀ (b : Bdev) (list : List PtableEntry), GeometryOk b → Ordered b list →
    ∀ (n : UInt64) (allocEnd : Bool),
      AllocRight b list n.toNat allocEnd (ptableAllocate b list n.toNat allocEnd) := by
  intro hall
  have hr := hall twoRegions twoEntries twoRegions_ok twoEntries_ordered 1 true
  have hp : ptableAllocate twoRegions twoEntries (1 : UInt64).toNat true = some (.ok (0, 8)) := by
    decide
  obtain ⟨g, -, -, -, hfirst⟩ := hr.place 0 8 hp
  have hroom : Room twoRegions twoEntries (1 : UInt64).toNat ⟨8, 16, 2, 1, rfl⟩ 10 2 :=
    ⟨by decide, by decide, ⟨by decide, by decide, by decide, by decide, by decide, by decide⟩, by decide⟩
  have h : 10 ≤ 0 := hfirst ⟨8, 16, 2, 1, rfl⟩ (.tail _ (.head _)) 10 2 hroom
  exact absurd h (by decide)

end LkHv
