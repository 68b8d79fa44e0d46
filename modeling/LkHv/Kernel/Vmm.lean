import Mathlib.Data.List.InsertIdx
import LkHv.Lib.Machine
import LkHv.Kernel.Err
import LkHv.Kernel.Pmm
import LkHv.Kernel.Word

/-!
# The region list of an address space (`kernel/vm/vmm.c`)

Addresses are 64-bit numbers and sums wrap as in C: the end of a region at the top of the address space is 0.

* `trimToAspace`, `addRegionToAspace`, `checkGap`, `allocSpot`, `allocRegion`, `vmmReserveSpace`,
  `vmmAllocPhysical`, `vmmAllocContiguous`, `vmmAlloc`, `vmmFindRegion`, `vmmFreeRegion`   the source's;
* `vmmSys`        the address space under any sequence of calls;
* `RegionsOk`     the regions are sorted, page aligned, disjoint and inside the address space;
* `IsSpot`        there is room for a region;
* `Chained`       the invariant: a list that goes up from an address;
* `vmm_regions`   in runs under the guard every state is `RegionsOk` and `allocSpot` finds a spot if there
  is one;
* `vmm_regions_fails`   not so if a region is asked for at an address that is not page aligned.
-/

namespace LkHv
namespace Vmm

/-- `vmm_region_t` -/
structure Region where
  base : Nat
  size : Nat
deriving DecidableEq

/-- `vmm_aspace_t` -/
structure Aspace where
  base : Nat
  size : Nat
  regionList : List Region

/-- where the caller wants the region: anywhere, or at `*ptr` -/
inductive Place
  | anywhere
  | specific (ptr : Option Nat)

/-- the address asked for; `none` if the pointer is missing -/
def Place.vaddr : Place → Option (Option Nat)
  | .anywhere => some none
  | .specific none => none
  | .specific (some vaddr) => some (some vaddr)

def IsPageAligned (x : Nat) : Prop := PAGE_SIZE ∣ x

instance (x : Nat) : Decidable (IsPageAligned x) := inferInstanceAs (Decidable (_ ∣ _))

namespace Aspace

def IsInsideAspace (a : Aspace) (vaddr : Nat) : Prop := a.base ≤ vaddr ∧ vaddr ≤ last64 a.base a.size

instance (a : Aspace) (vaddr : Nat) : Decidable (a.IsInsideAspace vaddr) := inferInstanceAs (Decidable (_ ∧ _))

def isRegionInsideAspace (a : Aspace) (vaddr size : Nat) : Bool :=
  if ¬ a.IsInsideAspace vaddr then false
  else if size = 0 then true
  else if last64 vaddr size < vaddr then false   -- the integer wraps
  else if last64 vaddr size > last64 a.base a.size then false
  else true

def trimToAspace (a : Aspace) (vaddr size : Nat) : Nat :=
  if size = 0 then size
  else
    let offset := sub64 vaddr a.base
    let size := if add64 offset size < offset then sub64 (sub64 (2 ^ 64 - 1) offset) 1 else size
    if add64 offset size ≥ sub64 a.size 1 then sub64 a.size offset else size

/-! ## `add_region_to_aspace` -/

/-- the walk for the right spot -/
def addWalk (r : Region) : List Region → Option (List Region)
  | [] => none
  | last :: rest =>
    -- does it go after last?
    if r.base > last64 last.base last.size then
      match rest with
      | [] => some [last, r]
      | next :: _ =>
        if last64 r.base r.size < next.base then some (last :: r :: rest)
        else (addWalk r rest).map (last :: ·)
    else (addWalk r rest).map (last :: ·)

def addRegionToAspace (a : Aspace) (r : Region) : Aspace × Int :=
  if r.size = 0 ∨ a.isRegionInsideAspace r.base r.size = false then (a, ERR_OUT_OF_RANGE)
  else
    match a.regionList with
    | [] => ({ a with regionList := [r] }, 0)
    | first :: rest =>
      if last64 r.base r.size < first.base then ({ a with regionList := r :: first :: rest }, 0)
      else
        match addWalk r (first :: rest) with
        | some l => ({ a with regionList := l }, 0)
        | none => (a, ERR_NO_MEMORY)

/-! ## `alloc_spot` -/

/-- `(vaddr_t)-1` -/
def NO_SPOT : Nat := 2 ^ 64 - 1

/-- the spot of a gap, its last byte included: `none` to go on with the next gap.  `arch_mmu_pick_spot` aligns
the first byte. -/
def pickSpot (align size gapBeg gapEnd : Nat) : Option Nat :=
  let pva := roundup64 gapBeg align
  if pva < gapBeg then some NO_SPOT   -- address wrapped around
  else if pva < gapEnd ∧ add64 (sub64 gapEnd pva) 1 ≥ size then some pva
  else none

def checkGap (a : Aspace) (prev next : Option Region) (align size : Nat) : Option Nat :=
  let gapBeg := match prev with
    | some r => add64 r.base r.size
    | none => a.base
  match next with
  | some n => if gapBeg = n.base then none else pickSpot align size gapBeg (sub64 n.base 1)
  | none =>
    if gapBeg = add64 a.base a.size then some NO_SPOT
    else pickSpot align size gapBeg (last64 a.base a.size)

/-- the gaps from the one after `prev` on; the result is the spot, and how many regions stand before it -/
def spotWalk (a : Aspace) (align size : Nat) : Nat → Option Region → List Region → Nat × Nat
  | i, prev, [] =>
    match a.checkGap prev none align size with
    | some spot => (spot, i)
    | none => (NO_SPOT, i)
  | i, prev, r :: l =>
    match a.checkGap prev (some r) align size with
    | some spot => (spot, i)
    | none => spotWalk a align size (i + 1) (some r) l

/-- the alignment `alloc_spot` works with -/
def spotAlign (alignPow2 : Nat) : Nat := shl1 (max alignPow2 PAGE_SIZE_SHIFT)

def allocSpot (a : Aspace) (size alignPow2 : Nat) : Nat × Nat :=
  a.spotWalk (spotAlign alignPow2) size 0 none a.regionList

/-- `specific` is the address asked for with `VMM_FLAG_VALLOC_SPECIFIC`, `mem` says if `calloc` finds memory -/
def allocRegion (a : Aspace) (mem : Bool) (size : Nat) (specific : Option Nat) (alignPow2 : Nat) : Aspace × Bool :=
  if mem = false then (a, false)
  else
    match specific with
    | some vaddr =>
      let r := a.addRegionToAspace ⟨vaddr, size⟩
      if r.2 < 0 then (a, false) else (r.1, true)
    | none =>
      let r := a.allocSpot size alignPow2
      if r.1 = NO_SPOT then (a, false)
      else ({ a with regionList := a.regionList.insertIdx r.2 ⟨r.1, size⟩ }, true)

/-! ## the calls -/

def vmmReserveSpace (a : Aspace) (mem : Bool) (size vaddr : Nat) : Aspace × Int :=
  if size = 0 then (a, 0)
  else if ¬ IsPageAligned vaddr ∨ ¬ IsPageAligned size then (a, ERR_INVALID_ARGS)
  else if ¬ a.IsInsideAspace vaddr then (a, ERR_OUT_OF_RANGE)
  else
    let r := a.allocRegion mem (a.trimToAspace vaddr size) (some vaddr) 0
    (r.1, if r.2 then 0 else ERR_NO_MEMORY)

/-- what `arch_mmu_map` returns is not looked at -/
def vmmAllocPhysical (a : Aspace) (mem : Bool) (size : Nat) (place : Place) (alignLog2 paddr : Nat) : Aspace × Int :=
  if size = 0 then (a, 0)
  else if ¬ IsPageAligned paddr ∨ ¬ IsPageAligned size then (a, ERR_INVALID_ARGS)
  else
    match place.vaddr with
    | none => (a, ERR_INVALID_ARGS)
    | some specific =>
      let r := a.allocRegion mem size specific alignLog2
      (r.1, if r.2 then 0 else ERR_NO_MEMORY)

/-- `vmm_alloc_contiguous` and `vmm_alloc`, which differ in how they ask the pmm: `pages` says if it has the
pages -/
def allocPaged (a : Aspace) (mem pages : Bool) (size : Nat) (place : Place) (alignPow2 : Nat) : Aspace × Int :=
  let size := roundup64 size PAGE_SIZE
  if size = 0 then (a, ERR_INVALID_ARGS)
  else
    match place.vaddr with
    | none => (a, ERR_INVALID_ARGS)
    | some specific =>
      if pages = false then (a, ERR_NO_MEMORY)
      else
        let r := a.allocRegion mem size specific alignPow2
        (r.1, if r.2 then 0 else ERR_NO_MEMORY)

def vmmAllocContiguous (a : Aspace) (mem pages : Bool) (size : Nat) (place : Place) (alignPow2 : Nat) :
    Aspace × Int :=
  a.allocPaged mem pages size place alignPow2

def vmmAlloc (a : Aspace) (mem pages : Bool) (size : Nat) (place : Place) (alignPow2 : Nat) : Aspace × Int :=
  a.allocPaged mem pages size place alignPow2

def vmmFindRegion (a : Aspace) (vaddr : Nat) : Option Region :=
  a.regionList.find? fun r => vaddr ≥ r.base ∧ vaddr ≤ last64 r.base r.size

def vmmFreeRegion (a : Aspace) (vaddr : Nat) : Aspace × Int :=
  match a.vmmFindRegion vaddr with
  | none => (a, ERR_NOT_FOUND)
  | some r => ({ a with regionList := a.regionList.erase r }, 0)

end Aspace

open Aspace

inductive VmmOp
  | reserve (mem : Bool) (size vaddr : Nat)
  | physical (mem : Bool) (size : Nat) (place : Place) (alignLog2 paddr : Nat)
  | contiguous (mem pages : Bool) (size : Nat) (place : Place) (alignPow2 : Nat)
  | alloc (mem pages : Bool) (size : Nat) (place : Place) (alignPow2 : Nat)
  | free (vaddr : Nat)

def Place.Is64 : Place → Prop
  | .specific (some vaddr) => vaddr < 2 ^ 64
  | _ => True

/-- the arguments are 64-bit numbers -/
def VmmOp.Is64 : VmmOp → Prop
  | .reserve _ size vaddr => size < 2 ^ 64 ∧ vaddr < 2 ^ 64
  | .physical _ size place _ paddr => size < 2 ^ 64 ∧ place.Is64 ∧ paddr < 2 ^ 64
  | .contiguous _ _ size place _ | .alloc _ _ size place _ => size < 2 ^ 64 ∧ place.Is64
  | .free vaddr => vaddr < 2 ^ 64

def vmmStep (a : Aspace) : VmmOp → Aspace × Int
  | .reserve mem size vaddr => a.vmmReserveSpace mem size vaddr
  | .physical mem size place alignLog2 paddr => a.vmmAllocPhysical mem size place alignLog2 paddr
  | .contiguous mem pages size place alignPow2 => a.vmmAllocContiguous mem pages size place alignPow2
  | .alloc mem pages size place alignPow2 => a.vmmAlloc mem pages size place alignPow2
  | .free vaddr => a.vmmFreeRegion vaddr

/-- an address space of whole pages that does not wrap -/
structure Aspace.Ok (a : Aspace) : Prop where
  base : PAGE_SIZE ∣ a.base
  size : PAGE_SIZE ∣ a.size
  pos : 0 < a.size
  sizeLt : a.size < 2 ^ 64
  bound : a.base + a.size ≤ 2 ^ 64

def vmmSys : Machine Aspace VmmOp where
  init a := a.Ok ∧ a.regionList = []
  step a op a' := op.Is64 ∧ a' = (vmmStep a op).1

/-- sorted by base, page aligned, disjoint and inside the address space, sums taken without wrapping -/
structure RegionsOk (a : Aspace) : Prop where
  sorted : a.regionList.Pairwise fun r q => r.base < q.base
  disjoint : a.regionList.Pairwise fun r q => r.base + r.size ≤ q.base
  aligned : ∀ r ∈ a.regionList, PAGE_SIZE ∣ r.base ∧ PAGE_SIZE ∣ r.size
  inside : ∀ r ∈ a.regionList, a.base ≤ r.base ∧ 0 < r.size ∧ r.base + r.size ≤ a.base + a.size

/-- there is room for `size` bytes at `q` -/
structure IsSpot (a : Aspace) (size align q : Nat) : Prop where
  aligned : align ∣ q
  above : a.base ≤ q
  below : q + size ≤ a.base + a.size
  apart : ∀ r ∈ a.regionList, q + size ≤ r.base ∨ r.base + r.size ≤ q

def Place.Aligned : Place → Prop
  | .specific (some vaddr) => PAGE_SIZE ∣ vaddr
  | _ => True

/-- the guard: an address asked for is page aligned -/
def VmmGuard (_ : Aspace) : VmmOp → Prop
  | .physical _ _ place _ _ | .contiguous _ _ _ place _ | .alloc _ _ _ place _ => place.Aligned
  | _ => True

/-! ## the invariant -/

/-- the regions go up from `g` to `hi`, page aligned and not empty -/
def Chained (hi : Nat) : Nat → List Region → Prop
  | g, [] => g ≤ hi
  | g, r :: l =>
    g ≤ r.base ∧ PAGE_SIZE ∣ r.base ∧ PAGE_SIZE ∣ r.size ∧ 0 < r.size ∧ Chained hi (r.base + r.size) l

section
variable {a a' : Aspace} {r : Region} {hi g g' : Nat} {l : List Region}

theorem Chained.mono (h : Chained hi g l) (hg : g' ≤ g) : Chained hi g' l := by
  cases l with
  | nil => exact Nat.le_trans hg h
  | cons r l => exact ⟨Nat.le_trans hg h.1, h.2⟩

theorem Chained.le (h : Chained hi g l) : g ≤ hi := by
  induction l generalizing g with
  | nil => exact h
  | cons r l ih =>
    obtain ⟨h1, -, -, h2, h3⟩ := h
    have := ih h3
    omega

theorem Chained.mem (h : Chained hi g l) (hr : r ∈ l) :
    g ≤ r.base ∧ r.base + r.size ≤ hi ∧ 0 < r.size ∧ PAGE_SIZE ∣ r.base ∧ PAGE_SIZE ∣ r.size := by
  induction l generalizing g with
  | nil => cases hr
  | cons q l ih =>
    obtain ⟨h1, h2, h3, h4, h5⟩ := h
    rcases List.mem_cons.mp hr with rfl | hr
    · exact ⟨h1, h5.le, h4, h2, h3⟩
    · obtain ⟨h6, h7⟩ := ih h5 hr
      exact ⟨by lia, h7⟩

theorem Chained.pairwise (h : Chained hi g l) : l.Pairwise fun r q => r.base + r.size ≤ q.base := by
  induction l generalizing g with
  | nil => exact List.Pairwise.nil
  | cons q l ih =>
    obtain ⟨-, -, -, -, h5⟩ := h
    exact List.pairwise_cons.mpr ⟨fun r hr => (h5.mem hr).1, ih h5⟩

theorem Chained.erase (h : Chained hi g l) (r : Region) : Chained hi g (l.erase r) := by
  induction l generalizing g with
  | nil => exact h
  | cons q l ih =>
    obtain ⟨h1, h2, h3, h4, h5⟩ := h
    rw [List.erase_cons]
    split
    · exact h5.mono (by omega)
    · exact ⟨h1, h2, h3, h4, ih h5⟩

structure VmmInv (a : Aspace) : Prop where
  ok : a.Ok
  chain : Chained (a.base + a.size) a.base a.regionList

theorem VmmInv.regionsOk (h : VmmInv a) : RegionsOk a where
  sorted := by
    refine h.chain.pairwise.imp_of_mem fun {r q} hr _ hrq => ?_
    have := (h.chain.mem hr).2.2.1
    omega
  disjoint := h.chain.pairwise
  aligned r hr := (h.chain.mem hr).2.2.2
  inside r hr := by
    obtain ⟨h1, h2, h3, -⟩ := h.chain.mem hr
    exact ⟨h1, h3, h2⟩

/-! ## `add_region_to_aspace` -/

theorem insideAspace_iff (ha : a.Ok) {vaddr : Nat} :
    a.IsInsideAspace vaddr ↔ a.base ≤ vaddr ∧ vaddr < a.base + a.size := by
  unfold Aspace.IsInsideAspace
  rw [last64_eq ha.bound ha.pos]
  have := ha.pos
  omega

theorem isRegionInsideAspace_of (ha : a.Ok) {vaddr size : Nat} (hv : vaddr < 2 ^ 64) (hs : size < 2 ^ 64)
    (hpos : 0 < size) (h : a.isRegionInsideAspace vaddr size = true) :
    a.base ≤ vaddr ∧ vaddr + size ≤ a.base + a.size := by
  unfold Aspace.isRegionInsideAspace at h
  rw [last64_eq ha.bound ha.pos] at h
  split at h
  · cases h
  rename_i hin
  have hin := (insideAspace_iff ha).mp (not_not.mp hin)
  split at h
  · omega
  split at h
  · cases h
  rename_i hwrap
  split at h
  · cases h
  rename_i hle
  have hb := ha.bound
  unfold last64 sub64 add64 at hwrap hle
  omega

theorem addWalk_chained {size : Nat} (hal : PAGE_SIZE ∣ r.base) (has : PAGE_SIZE ∣ r.size)
    (hpos : 0 < r.size) (hhi : hi ≤ 2 ^ 64) (hr : r.base + r.size ≤ hi) :
    ∀ {g l'}, hi ≤ g + size → Chained hi g l → addWalk r l = some l' → Chained hi g l' := by
  have hlast : last64 r.base r.size = r.base + r.size - 1 := last64_eq (by lia) hpos
  induction l with
  | nil => exact fun _ _ h => by cases h
  | cons last rest ih =>
    intro g l' hg hch h
    obtain ⟨h1, h2, h3, h4, h5⟩ := hch
    have hle := h5.le
    have hrest : ∀ {m}, addWalk r rest = some m → Chained hi (last.base + last.size) m := fun hm => ih (by lia) h5 hm
    have hlast' : last64 last.base last.size = last.base + last.size - 1 := last64_eq (by lia) h4
    unfold Aspace.addWalk at h
    rw [hlast, hlast'] at h
    split at h
    · rename_i hafter
      cases rest with
      | nil =>
        cases h
        exact ⟨h1, h2, h3, h4, by lia, hal, has, hpos, hr⟩
      | cons next rest =>
        dsimp only at h
        split at h
        · cases h
          obtain ⟨-, h6⟩ := h5
          exact ⟨h1, h2, h3, h4, by lia, hal, has, hpos, by lia, h6⟩
        · obtain ⟨m, hm, rfl⟩ := Option.map_eq_some_iff.mp h
          exact ⟨h1, h2, h3, h4, hrest hm⟩
    · obtain ⟨m, hm, rfl⟩ := Option.map_eq_some_iff.mp h
      exact ⟨h1, h2, h3, h4, hrest hm⟩

theorem addRegionToAspace_inv (h : VmmInv a) (hal : PAGE_SIZE ∣ r.base) (has : PAGE_SIZE ∣ r.size)
    (hb : r.base < 2 ^ 64) (hs : r.size < 2 ^ 64) : VmmInv (a.addRegionToAspace r).1 := by
  unfold Aspace.addRegionToAspace
  split
  · exact h
  rename_i hin
  have hpos : 0 < r.size := by lia
  have hin' : a.isRegionInsideAspace r.base r.size = true := by
    by_contra hf
    exact hin (.inr (by simpa using hf))
  obtain ⟨h1, h2⟩ := isRegionInsideAspace_of h.ok hb hs hpos hin'
  have hlast : last64 r.base r.size = r.base + r.size - 1 := last64_eq (by have := h.ok.bound; lia) hpos
  have hch := h.chain
  split
  · exact ⟨⟨h.ok.base, h.ok.size, h.ok.pos, h.ok.sizeLt, h.ok.bound⟩, h1, hal, has, hpos, h2⟩
  · rename_i first rest hl
    rw [hl] at hch
    split
    · rename_i hlt
      rw [hlast] at hlt
      exact ⟨⟨h.ok.base, h.ok.size, h.ok.pos, h.ok.sizeLt, h.ok.bound⟩, h1, hal, has, hpos, by lia, hch.2⟩
    · split
      · rename_i l' hw
        exact ⟨⟨h.ok.base, h.ok.size, h.ok.pos, h.ok.sizeLt, h.ok.bound⟩,
          addWalk_chained hal has hpos h.ok.bound h2 (Nat.le_refl _) hch hw⟩
      · exact h

/-! ## `alloc_spot` -/

theorem shl1_dvd (n : Nat) : shl1 n ∣ 2 ^ 64 := Nat.pow_dvd_pow 2 (by omega)

/-- a page-aligned address is rounded up to a page-aligned one -/
theorem roundup64_page {n : Nat} (hg : PAGE_SIZE ∣ g) (h : g + (shl1 n - 1) < 2 ^ 64) :
    PAGE_SIZE ∣ roundup64 g (shl1 n) := by
  obtain ⟨h1, h2, h3⟩ := roundup64_spec (shl1_pos n) h
  by_cases hn : 12 ≤ n % 64
  · exact Nat.dvd_trans (Nat.pow_dvd_pow 2 hn) h1
  · have hd : shl1 n ∣ PAGE_SIZE := Nat.pow_dvd_pow 2 (show n % 64 ≤ 12 by lia)
    rw [Nat.le_antisymm (h3 g (Nat.dvd_trans hd hg) (Nat.le_refl g)) h2]
    exact hg

/-- the spot of the gap from `g` up to `h` -/
theorem pickSpot_cases {n h size : Nat} (hg : g < h) (hh : h ≤ 2 ^ 64) (hlen : h < g + 2 ^ 64) (hs : 2 ≤ size)
    (hpg : PAGE_SIZE ∣ g) : (pickSpot (shl1 n) size g (h - 1) = some NO_SPOT ∧ ∀ q, shl1 n ∣ q → g ≤ q → 2 ^ 64 ≤ q) ∨
    (∃ p, pickSpot (shl1 n) size g (h - 1) = some p ∧ p ≠ NO_SPOT ∧ shl1 n ∣ p ∧ PAGE_SIZE ∣ p ∧ g ≤ p ∧
      p + size ≤ h) ∨ (pickSpot (shl1 n) size g (h - 1) = none ∧ ∀ q, shl1 n ∣ q → g ≤ q → h < q + size) := by
  have hle := shl1_le n
  unfold pickSpot
  dsimp only
  by_cases hw : g + (shl1 n - 1) < 2 ^ 64
  · obtain ⟨h1, h2, h3⟩ := roundup64_spec (shl1_pos n) hw
    have h4 := roundup64_page hpg hw
    rw [if_neg (by omega)]
    generalize roundup64 g (shl1 n) = p at h1 h2 h3 h4 ⊢
    have hroom : p < h - 1 → add64 (sub64 (h - 1) p) 1 = h - p := by
      intro hp
      rw [sub64_of_le (by omega) (by omega), add64_of_lt (by omega)]
      omega
    split
    · rename_i hr
      obtain ⟨hlt, hr⟩ := hr
      rw [hroom hlt] at hr
      refine .inr (.inl ⟨p, rfl, ?_, h1, h4, h2, by omega⟩)
      unfold NO_SPOT
      omega
    · rename_i hr
      refine .inr (.inr ⟨rfl, fun q hq hgq => ?_⟩)
      have h5 := h3 q hq hgq
      by_contra hfit
      have hlt : p < h - 1 := by omega
      refine hr ⟨hlt, ?_⟩
      rw [hroom hlt]
      omega
  · obtain ⟨h1, h2⟩ := roundup64_wrap (a := g) (b := shl1 n) (by omega) (by omega) (shl1_dvd n) (by omega)
    have hpos : 0 < g := by
      by_contra h0
      omega
    left
    rw [h1, if_pos hpos]
    exact ⟨rfl, h2⟩

/-- the gap after `prev` starts at `g` -/
def GapStart (a : Aspace) (prev : Option Region) (g : Nat) : Prop :=
  match prev with
  | none => g = a.base
  | some r => g = r.base + r.size

/-- the first byte of a gap, as `check_gap` computes it -/
theorem gapBeg_eq {prev : Option Region} (hg : GapStart a prev g) (hb : a.base < 2 ^ 64) :
    (match prev with
      | some r => add64 r.base r.size
      | none => a.base) = g % 2 ^ 64 := by
  cases prev with
  | none =>
    change g = a.base at hg
    rw [hg]
    exact (Nat.mod_eq_of_lt hb).symm
  | some r =>
    change g = r.base + r.size at hg
    rw [hg]
    rfl

/-- a gap that ends at a region -/
theorem checkGap_next {n size : Nat} {prev : Option Region} {next : Region} (hg : GapStart a prev g)
    (hb : a.base < 2 ^ 64) (hn : g ≤ next.base) (hlt : next.base < 2 ^ 64) (hs : 2 ≤ size) (hpg : PAGE_SIZE ∣ g) :
    (a.checkGap prev (some next) (shl1 n) size = some NO_SPOT ∧ ∀ q, shl1 n ∣ q → g ≤ q → 2 ^ 64 ≤ q) ∨
    (∃ p, a.checkGap prev (some next) (shl1 n) size = some p ∧ p ≠ NO_SPOT ∧ shl1 n ∣ p ∧ PAGE_SIZE ∣ p ∧
      g ≤ p ∧ p + size ≤ next.base) ∨
    (a.checkGap prev (some next) (shl1 n) size = none ∧ ∀ q, shl1 n ∣ q → g ≤ q → next.base < q + size) := by
  unfold Aspace.checkGap
  dsimp only
  rw [gapBeg_eq hg hb, Nat.mod_eq_of_lt (by lia)]
  split
  · exact .inr (.inr ⟨rfl, fun q _ hq => by lia⟩)
  · rename_i e
    rw [sub64_of_le hlt (by lia)]
    exact pickSpot_cases (by lia) (by lia) (by lia) hs hpg

/-- the gap at the end of the address space -/
theorem checkGap_end (ha : a.Ok) {n size : Nat} {prev : Option Region} (hg : GapStart a prev g)
    (hlo : a.base ≤ g) (hhi : g ≤ a.base + a.size) (hs : 2 ≤ size) (hpg : PAGE_SIZE ∣ g) :
    (∃ p, a.checkGap prev none (shl1 n) size = some p ∧ p ≠ NO_SPOT ∧ shl1 n ∣ p ∧ PAGE_SIZE ∣ p ∧
      g ≤ p ∧ p + size ≤ a.base + a.size) ∨
    ((a.checkGap prev none (shl1 n) size = some NO_SPOT ∨ a.checkGap prev none (shl1 n) size = none) ∧
      ∀ q, shl1 n ∣ q → g ≤ q → a.base + a.size < q + size) := by
  have hb := ha.bound
  have hpos := ha.pos
  have hsz := ha.sizeLt
  unfold Aspace.checkGap
  dsimp only
  rw [gapBeg_eq hg (by lia)]
  -- the two ends are the same number on 64 bits only if they are the same
  have hend : g % 2 ^ 64 = add64 a.base a.size ↔ g = a.base + a.size := by
    unfold add64
    lia
  split
  · rename_i e
    have := hend.mp e
    exact .inr ⟨.inl rfl, fun q _ hq => by lia⟩
  · rename_i e
    have hne : g ≠ a.base + a.size := fun e' => e (hend.mpr e')
    rw [last64_eq hb hpos, Nat.mod_eq_of_lt (by lia)]
    rcases pickSpot_cases (n := n) (show g < a.base + a.size by lia) hb (by lia) hs hpg with
      ⟨h1, h2⟩ | h | ⟨h1, h2⟩
    · refine .inr ⟨.inl h1, fun q hq hgq => ?_⟩
      have := h2 q hq hgq
      lia
    · exact .inl h
    · exact .inr ⟨.inr h1, h2⟩

/-- what the walk from the gap at `g` finds: no spot and there is none, or a spot where the region can be put
into the list -/
theorem spotWalk_spec (ha : a.Ok) {n size : Nat} (hs : PAGE_SIZE ∣ size) (hpos : 0 < size) :
    ∀ {l g i prev}, GapStart a prev g → a.base ≤ g → PAGE_SIZE ∣ g → Chained (a.base + a.size) g l →
      ((a.spotWalk (shl1 n) size i prev l).1 = NO_SPOT ∧ ∀ q, shl1 n ∣ q → g ≤ q → q + size ≤ a.base + a.size →
        ∃ r ∈ l, ¬ (q + size ≤ r.base ∨ r.base + r.size ≤ q)) ∨
      ∃ p k, a.spotWalk (shl1 n) size i prev l = (p, i + k) ∧ p ≠ NO_SPOT ∧ shl1 n ∣ p ∧ g ≤ p ∧
        p + size ≤ a.base + a.size ∧ (∀ r ∈ l, p + size ≤ r.base ∨ r.base + r.size ≤ p) ∧
        Chained (a.base + a.size) g (l.insertIdx k ⟨p, size⟩) := by
  have hs2 : 2 ≤ size := Nat.le_trans (by decide) (Nat.le_of_dvd hpos hs)
  have hb := ha.bound
  have hapos := ha.pos
  intro l
  induction l with
  | nil =>
    intro g i prev hg hlo hpg hch
    rw [Aspace.spotWalk]
    rcases checkGap_end ha (n := n) hg hlo hch.le hs2 hpg with ⟨p, h1, h2, h3, h4, h5, h6⟩ | ⟨h1, h2⟩
    · rw [h1]
      exact .inr ⟨p, 0, rfl, h2, h3, h5, h6, (fun r hr => by cases hr), h5, h4, hs, hpos, h6⟩
    · left
      refine ⟨?_, fun q hq hgq hfit => ?_⟩
      · rcases h1 with h1 | h1 <;> rw [h1]
      · have := h2 q hq hgq
        lia
  | cons r l ih =>
    intro g i prev hg hlo hpg hch
    obtain ⟨h1, h2, h3, h4, h5⟩ := hch
    have hle := h5.le
    rw [Aspace.spotWalk]
    rcases checkGap_next (n := n) hg (by lia) h1 (by lia) hs2 hpg with
      ⟨hc, hw⟩ | ⟨p, hc, hne, hd, hpp, hgp, hfit⟩ | ⟨hc, hfull⟩
    · rw [hc]
      refine .inl ⟨rfl, fun q hq hgq hfit => ?_⟩
      have := hw q hq hgq
      lia
    · rw [hc]
      refine .inr ⟨p, 0, rfl, hne, hd, hgp, by lia, fun q hq => ?_, hgp, hpp, hs, hpos, hfit, h2, h3, h4, h5⟩
      rcases List.mem_cons.mp hq with rfl | hq
      · exact .inl hfit
      · have := (h5.mem hq).1
        exact .inl (by lia)
    · rw [hc]
      have hr : GapStart a (some r) (r.base + r.size) := rfl
      rcases ih (i := i + 1) hr (by lia) (Nat.dvd_add h2 h3) h5 with
        ⟨hn, hnone⟩ | ⟨p, k, hw, hne, hd, hgp, hhi, hap, hch⟩
      · refine .inl ⟨hn, fun q hq hgq hfit => ?_⟩
        by_cases hqr : r.base + r.size ≤ q
        · obtain ⟨x, hx, hno⟩ := hnone q hq hqr hfit
          exact ⟨x, List.mem_cons_of_mem _ hx, hno⟩
        · have := hfull q hq hgq
          exact ⟨r, List.mem_cons_self, by lia⟩
      · refine .inr ⟨p, k + 1, ?_, hne, hd, by lia, hhi, fun q hq => ?_, ?_⟩
        · rw [hw, Nat.add_assoc, Nat.add_comm 1 k]
        · rcases List.mem_cons.mp hq with rfl | hq
          · exact .inr hgp
          · exact hap q hq
        · rw [List.insertIdx_succ_cons]
          exact ⟨h1, h2, h3, h4, hch⟩

/-- **`alloc_spot`** finds a spot if there is one -/
theorem allocSpot_spec (h : VmmInv a) {size : Nat} (hs : PAGE_SIZE ∣ size) (hpos : 0 < size) (k : Nat) :
    ((a.allocSpot size k).1 = NO_SPOT ∧ ¬ ∃ q, IsSpot a size (Aspace.spotAlign k) q) ∨
      (a.allocSpot size k).1 ≠ NO_SPOT ∧ IsSpot a size (Aspace.spotAlign k) (a.allocSpot size k).1 ∧
        Chained (a.base + a.size) a.base
          (a.regionList.insertIdx (a.allocSpot size k).2 ⟨(a.allocSpot size k).1, size⟩) := by
  have hg : GapStart a none a.base := rfl
  unfold Aspace.allocSpot Aspace.spotAlign
  rcases spotWalk_spec h.ok (n := max k PAGE_SIZE_SHIFT) hs hpos (i := 0) hg (Nat.le_refl _) h.ok.base h.chain with
    ⟨h1, h2⟩ | ⟨p, j, hw, hne, hd, hgp, hhi, hap, hch⟩
  · refine .inl ⟨h1, ?_⟩
    rintro ⟨q, hq⟩
    obtain ⟨r, hr, hno⟩ := h2 q hq.aligned hq.above hq.below
    exact hno (hq.apart r hr)
  · rw [hw, Nat.zero_add]
    exact .inr ⟨hne, ⟨hd, hgp, hhi, hap⟩, hch⟩

/-! ## the calls -/

/-- a range of whole pages that starts in the address space is cut to whole pages -/
theorem trimToAspace_spec (ha : a.Ok) {vaddr size : Nat} (hin : a.IsInsideAspace vaddr)
    (hv : PAGE_SIZE ∣ vaddr) (hs : PAGE_SIZE ∣ size) (hlt : size < 2 ^ 64) :
    PAGE_SIZE ∣ a.trimToAspace vaddr size ∧ a.trimToAspace vaddr size < 2 ^ 64 := by
  obtain ⟨h1, h2⟩ := (insideAspace_iff ha).mp hin
  have hb := ha.bound
  have hz := ha.sizeLt
  have hoff : sub64 vaddr a.base = vaddr - a.base := sub64_of_le (by lia) h1
  have hlast : sub64 a.size 1 = a.size - 1 := sub64_of_le hz ha.pos
  have hrest : sub64 a.size (vaddr - a.base) = a.size - (vaddr - a.base) := sub64_of_le hz (by lia)
  have hd : PAGE_SIZE ∣ a.size - (vaddr - a.base) := Nat.dvd_sub ha.size (Nat.dvd_sub hv ha.base)
  unfold Aspace.trimToAspace
  dsimp only
  rw [hoff, hlast, hrest]
  split
  · exact ⟨hs, hlt⟩
  by_cases hw : vaddr - a.base + size < 2 ^ 64
  · rw [if_neg (c := add64 (vaddr - a.base) size < vaddr - a.base) (by rw [add64_of_lt hw]; lia)]
    split
    · exact ⟨hd, by lia⟩
    · exact ⟨hs, hlt⟩
  · -- the sum wraps: the size is first cut to the end of the 64 bits
    have hcut : sub64 (sub64 (2 ^ 64 - 1) (vaddr - a.base)) 1 = 2 ^ 64 - 2 - (vaddr - a.base) := by
      have h3 : sub64 (2 ^ 64 - 1) (vaddr - a.base) = 2 ^ 64 - 1 - (vaddr - a.base) := sub64_of_le (by lia) (by lia)
      rw [h3, sub64_of_le (by lia) (by lia)]
      lia
    have hwrap : add64 (vaddr - a.base) size < vaddr - a.base := by
      unfold add64
      lia
    rw [if_pos hwrap, hcut, add64_of_lt (by lia), if_pos (by lia)]
    exact ⟨hd, by lia⟩

theorem allocRegion_inv (h : VmmInv a) {mem : Bool} {size k : Nat} {specific : Option Nat}
    (hs : PAGE_SIZE ∣ size) (hlt : size < 2 ^ 64) (hpos : specific = none → 0 < size)
    (hsp : ∀ vaddr, specific = some vaddr → PAGE_SIZE ∣ vaddr ∧ vaddr < 2 ^ 64) :
    VmmInv (a.allocRegion mem size specific k).1 := by
  unfold Aspace.allocRegion
  split
  · exact h
  · cases specific with
    | some vaddr =>
      obtain ⟨h1, h2⟩ := hsp vaddr rfl
      have hadd := addRegionToAspace_inv (r := ⟨vaddr, size⟩) h h1 hs h2 hlt
      dsimp only
      split
      · exact h
      · exact hadd
    | none =>
      dsimp only
      rcases allocSpot_spec h hs (hpos rfl) k with ⟨hn, -⟩ | ⟨hne, -, hch⟩
      · rw [if_pos hn]
        exact h
      · rw [if_neg hne]
        exact ⟨⟨h.ok.base, h.ok.size, h.ok.pos, h.ok.sizeLt, h.ok.bound⟩, hch⟩

/-- what a place says about the address asked for -/
theorem Place.vaddr_spec {place : Place} {specific : Option Nat} (h64 : place.Is64) (hal : place.Aligned)
    (h : place.vaddr = some specific) : ∀ vaddr, specific = some vaddr → PAGE_SIZE ∣ vaddr ∧ vaddr < 2 ^ 64 := by
  rintro vaddr rfl
  cases place with
  | anywhere => cases h
  | specific ptr =>
    cases ptr with
    | none => cases h
    | some v =>
      cases h
      exact ⟨hal, h64⟩

theorem roundup64_page_size (size : Nat) :
    PAGE_SIZE ∣ roundup64 size PAGE_SIZE ∧ roundup64 size PAGE_SIZE < 2 ^ 64 := by
  unfold roundup64
  have h1 := Nat.div_mul_le_self ((size + (PAGE_SIZE - 1)) % 2 ^ 64) PAGE_SIZE
  have h2 := Nat.mod_lt (size + (PAGE_SIZE - 1)) (show 0 < 2 ^ 64 by decide)
  exact ⟨Nat.dvd_mul_left _ _, by omega⟩

theorem allocPaged_inv (h : VmmInv a) {mem pages : Bool} {size k : Nat} {place : Place} (h64 : place.Is64)
    (hal : place.Aligned) : VmmInv (a.allocPaged mem pages size place k).1 := by
  obtain ⟨hd, hlt⟩ := roundup64_page_size size
  unfold Aspace.allocPaged
  dsimp only
  generalize roundup64 size PAGE_SIZE = size at hd hlt
  split
  · exact h
  rename_i hne
  split
  · exact h
  rename_i specific hp
  split
  · exact h
  · exact allocRegion_inv h hd hlt (fun _ => by omega) (Place.vaddr_spec h64 hal hp)

theorem VmmInv.step (h : VmmInv a) {op : VmmOp} (hg : VmmGuard a op) (h64 : op.Is64) : VmmInv (vmmStep a op).1 := by
  cases op with
  | reserve mem size vaddr =>
    obtain ⟨hlt, hv⟩ := h64
    show VmmInv (a.vmmReserveSpace mem size vaddr).1
    unfold Aspace.vmmReserveSpace
    split
    · exact h
    split
    · exact h
    rename_i hal
    split
    · exact h
    rename_i hin
    obtain ⟨hva, hsa⟩ := not_or.mp hal
    obtain ⟨h1, h2⟩ := trimToAspace_spec h.ok (not_not.mp hin) (not_not.mp hva) (not_not.mp hsa) hlt
    refine allocRegion_inv h h1 h2 (fun hn => by cases hn) fun v hv' => ?_
    cases hv'
    exact ⟨not_not.mp hva, hv⟩
  | physical mem size place k paddr =>
    obtain ⟨hlt, hp, -⟩ := h64
    show VmmInv (a.vmmAllocPhysical mem size place k paddr).1
    unfold Aspace.vmmAllocPhysical
    split
    · exact h
    split
    · exact h
    rename_i hne hal
    split
    · exact h
    rename_i specific hpl
    exact allocRegion_inv h (not_not.mp (not_or.mp hal).2) hlt (fun _ => by omega) (Place.vaddr_spec hp hg hpl)
  | contiguous mem pages size place k => exact allocPaged_inv h h64.2 hg
  | alloc mem pages size place k => exact allocPaged_inv h h64.2 hg
  | free vaddr =>
    show VmmInv (a.vmmFreeRegion vaddr).1
    unfold Aspace.vmmFreeRegion
    split
    · exact h
    · exact ⟨⟨h.ok.base, h.ok.size, h.ok.pos, h.ok.sizeLt, h.ok.bound⟩, h.chain.erase _⟩

theorem vmmInv (hr : vmmSys.Run VmmGuard a) : VmmInv a :=
  hr.invariant
    (fun a h0 => ⟨h0.1, by
      rw [h0.2]
      exact Nat.le_add_right _ _⟩)
    fun a op a' h hg hs => by
      obtain ⟨h64, rfl⟩ := hs
      exact h.step hg h64

end

/-- what the claim of the region list says of a state -/
structure VmmOk (a : Aspace) : Prop where
  regions : RegionsOk a
  /-- `alloc_spot` finds a spot if and only if there is one -/
  finds : ∀ size k, 0 < size → PAGE_SIZE ∣ size →
    ((a.allocSpot size k).1 ≠ NO_SPOT ↔ ∃ q, IsSpot a size (spotAlign k) q)
  /-- and what it finds is one -/
  found : ∀ size k, 0 < size → PAGE_SIZE ∣ size → (a.allocSpot size k).1 ≠ NO_SPOT →
    IsSpot a size (spotAlign k) (a.allocSpot size k).1

/-- **The region list** in runs that ask for page-aligned addresses -/
theorem vmm_regions {a : Aspace} (hr : vmmSys.Run VmmGuard a) :
    VmmOk a ∧ ∀ k, k < 64 → spotAlign k = 2 ^ max k PAGE_SIZE_SHIFT := by
  have h := vmmInv hr
  refine ⟨⟨h.regionsOk, fun size k hpos hs => ⟨fun hne => ?_, fun hex hn => ?_⟩, fun size k hpos hs hne => ?_⟩,
    fun k hk => ?_⟩
  · rcases allocSpot_spec h hs hpos k with ⟨hn, -⟩ | ⟨-, hsp, -⟩
    · exact absurd hn hne
    · exact ⟨_, hsp⟩
  · rcases allocSpot_spec h hs hpos k with ⟨-, hno⟩ | ⟨hne, -, -⟩
    · exact hno hex
    · exact hne hn
  · rcases allocSpot_spec h hs hpos k with ⟨hn, -⟩ | ⟨-, hsp, -⟩
    · exact absurd hn hne
    · exact hsp
  · unfold Aspace.spotAlign shl1
    have : PAGE_SIZE_SHIFT = 12 := rfl
    rw [Nat.mod_eq_of_lt (by omega)]

/-- the address space of the kernel, up to the last byte of the 64 bits -/
def kernelAspace : Aspace := ⟨0xffff000000000000, 0x1000000000000, []⟩

theorem kernelAspace_ok : kernelAspace.Ok := ⟨by decide, by decide, by decide, by decide, by decide⟩

/-- a region that ends at the last byte, and the next one -/
theorem vmm_regions_top : ∃ a, vmmSys.Run VmmGuard a ∧
    a.regionList = [⟨0xffff000000000000, 0x2000⟩, ⟨0xfffffffffffff000, 0x1000⟩] ∧ VmmOk a := by
  have h0 : vmmSys.Run VmmGuard kernelAspace := .init ⟨kernelAspace_ok, rfl⟩
  have h1 : vmmSys.Run VmmGuard (kernelAspace.vmmReserveSpace true 0x8000 0xfffffffffffff000).1 :=
    .step (a := .reserve true 0x8000 0xfffffffffffff000) h0 trivial ⟨by constructor <;> decide, rfl⟩
  have h2 : vmmSys.Run VmmGuard
      ((kernelAspace.vmmReserveSpace true 0x8000 0xfffffffffffff000).1.vmmAlloc true true 0x1800 .anywhere 0).1 :=
    .step (a := .alloc true true 0x1800 .anywhere 0) h1 trivial ⟨⟨by decide, trivial⟩, rfl⟩
  exact ⟨_, h2, by decide +kernel, (vmm_regions h2).1⟩

/-- **An address in the middle of a page.**  `vmm_alloc_physical` puts the region there. -/
theorem vmm_regions_fails : ¬ ∀ a, vmmSys.Reach a → VmmOk a := by
  intro h
  have h0 : vmmSys.Reach kernelAspace := .init ⟨kernelAspace_ok, rfl⟩
  have h1 : vmmSys.Reach
      (kernelAspace.vmmAllocPhysical true 0x1000 (.specific (some 0xffff000000000800)) 0 0x80000000).1 :=
    .step (a := .physical true 0x1000 (.specific (some 0xffff000000000800)) 0 0x80000000) h0 trivial
      ⟨⟨by decide, show 0xffff000000000800 < 2 ^ 64 by decide, by decide⟩, rfl⟩
  have hal := (h _ h1).regions.aligned ⟨0xffff000000000800, 0x1000⟩ (by decide)
  exact absurd hal.1 (by decide)

end Vmm
end LkHv
