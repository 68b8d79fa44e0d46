import LkHv.Kernel.Vmm
import LkHv.Stage1.Edits

/-!
# Pages of the address spaces (`kernel/vm/vmm.c`)

The calls of `vmm.c` with the pages they take from the pmm and the mappings they make.  An address space is named by
its `vmm_aspace_t`, a region by its base; `lists` holds the page lists of the regions.

* `vmmAlloc`, `vmmAllocContiguous`, `vmmAllocPhysical`, `vmmFreeRegion`, `vmmFreeAspace`   the source's; `none` is a panic of the code for the tables;
* `Rising`             the regions go up and are not empty, wherever they start;
* `allocRegion_rising`   a region that is put in;
* `SpaceInv`           one address space: its tables, its regions, and what is mapped where;
* `SpaceInv.map`, `SpaceInv.unmap`   the two calls for the tables.
-/

namespace LkHv
namespace VmmPages
open Radix Stage1 Vmm Vmm.Aspace

/-- `vmm_aspace_t` -/
structure Space where
  vm : Vmm.Aspace
  arch : ArchAspace
  /-- `page_list` of the region that starts here -/
  lists : Nat → List Nat

structure Vm where
  mmu : Mmu
  /-- `aspace_list` -/
  ids : List Nat
  space : Nat → Space
  /-- pages that were taken from the pmm by others -/
  others : Nat → Bool

def Vm.setPmm (s : Vm) (pmm : Pmm) : Vm := { s with mmu := { s.mmu with pmm } }

/-- the address space `i` is changed, and the tables -/
def Vm.setSpace (s : Vm) (i : Nat) (mmu : Mmu) (sp : Space) : Vm :=
  { s with mmu, space := Function.update s.space i sp }

/-- `size / PAGE_SIZE` as the `uint` that `arch_mmu_map` and the pmm take -/
def pageCount (size : Nat) : Nat := size / PAGE_SIZE % 2 ^ 32

/-- where `alloc_region` puts the region -/
def regionBase (a : Vmm.Aspace) (size : Nat) (specific : Option Nat) (alignPow2 : Nat) : Nat :=
  match specific with
  | some vaddr => vaddr
  | none => (a.allocSpot size alignPow2).1

/-! ## the calls -/

/-- what the calls share: `alloc_region`, then the mapping; `pages` are on the caller's `page_list` -/
def putRegion (s : Vm) (i : Nat) (mem : Bool) (size : Nat) (specific : Option Nat) (alignPow2 : Nat)
    (pages : List Nat) (map : Mmu → ArchAspace → Nat → Option Mmu) : Option (Vm × Int) :=
  let sp := s.space i
  let r := sp.vm.allocRegion mem size specific alignPow2
  let base := regionBase sp.vm size specific alignPow2
  if r.2 then
    (map s.mmu sp.arch base).map fun mmu =>
      (s.setSpace i mmu { sp with vm := r.1, lists := Function.update sp.lists base pages }, 0)
  else some (s.setPmm (pmmFree s.mmu.pmm pages), ERR_NO_MEMORY)

/-- `vmm_alloc_physical`; what `arch_mmu_map` returns is not looked at -/
def vmmAllocPhysical (s : Vm) (i : Nat) (mem : Bool) (size : Nat) (place : Place) (alignLog2 paddr flags : Nat) :
    Option (Vm × Int) :=
  if size = 0 then some (s, 0)
  else if ¬ IsPageAligned paddr ∨ ¬ IsPageAligned size then some (s, ERR_INVALID_ARGS)
  else
    match place.vaddr with
    | none => some (s, ERR_INVALID_ARGS)
    | some specific =>
      putRegion s i mem size specific alignLog2 [] fun mmu arch base =>
        (archMmuMap mmu arch base paddr (pageCount size) flags).map Prod.fst

/-- `vmm_alloc_contiguous` -/
def vmmAllocContiguous (s : Vm) (i : Nat) (mem : Bool) (size : Nat) (place : Place) (alignPow2 flags : Nat) :
    Option (Vm × Int) :=
  let size := roundup64 size PAGE_SIZE
  if size = 0 then some (s, ERR_INVALID_ARGS)
  else
    match place.vaddr with
    | none => some (s, ERR_INVALID_ARGS)
    | some specific =>
      let r := pmmAllocContiguous s.mmu.pmm (pageCount size) alignPow2
      match r.2 with
      | none => some (s.setPmm r.1, ERR_NO_MEMORY)
      | some p =>
        -- fewer pages than asked for are not given back
        if pageCount size < size / PAGE_SIZE then some (s.setPmm r.1, ERR_NO_MEMORY)
        else
          putRegion (s.setPmm r.1) i mem size specific alignPow2 (List.range' p (pageCount size))
            fun mmu arch base => (archMmuMap mmu arch base (PAGE_SIZE * p) (pageCount size) flags).map Prod.fst

/-- the loop of `vmm_alloc` that maps page by page -/
def mapPages (arch : ArchAspace) (flags : Nat) : Mmu → Nat → List Nat → Option Mmu
  | mmu, _, [] => some mmu
  | mmu, va, p :: ps =>
    (archMmuMap mmu arch va (PAGE_SIZE * p) 1 flags).bind fun r => mapPages arch flags r.1 (add64 va PAGE_SIZE) ps

/-- `vmm_alloc` -/
def vmmAlloc (s : Vm) (i : Nat) (mem : Bool) (size : Nat) (place : Place) (alignPow2 flags : Nat) :
    Option (Vm × Int) :=
  let size := roundup64 size PAGE_SIZE
  if size = 0 then some (s, ERR_INVALID_ARGS)
  else
    match place.vaddr with
    | none => some (s, ERR_INVALID_ARGS)
    | some specific =>
      let r := pmmAllocPages s.mmu.pmm (pageCount size)
      if r.2.length < size / PAGE_SIZE then some (s.setPmm (pmmFree r.1 r.2), ERR_NO_MEMORY)
      else
        putRegion (s.setPmm r.1) i mem size specific alignPow2 r.2 fun mmu arch base =>
          mapPages arch flags mmu base r.2

/-- the region and its page list are gone -/
def Space.drop (sp : Space) (r : Region) : Space :=
  { sp with
    vm := { sp.vm with regionList := sp.vm.regionList.erase r }
    lists := Function.update sp.lists r.base [] }

/-- `vmm_free_region` -/
def vmmFreeRegion (s : Vm) (i : Nat) (vaddr : Nat) : Option (Vm × Int) :=
  let sp := s.space i
  match sp.vm.vmmFindRegion vaddr with
  | none => some (s, ERR_NOT_FOUND)
  | some r =>
    (archMmuUnmap s.mmu sp.arch r.base (pageCount r.size)).map fun u =>
      ((s.setSpace i u.1 (sp.drop r)).setPmm (pmmFree u.1.pmm (sp.lists r.base)), 0)

/-- the first loop of `vmm_free_aspace` -/
def unmapRegions (arch : ArchAspace) : Mmu → List Region → Option Mmu
  | mmu, [] => some mmu
  | mmu, r :: rs => (archMmuUnmap mmu arch r.base (pageCount r.size)).bind fun u => unmapRegions arch u.1 rs

/-- the second loop -/
def freeLists (lists : Nat → List Nat) : Pmm → List Region → Pmm
  | pmm, [] => pmm
  | pmm, r :: rs => freeLists lists (pmmFree pmm (lists r.base)) rs

/-- `vmm_free_aspace`, which ends with `arch_mmu_destroy_aspace` -/
def vmmFreeAspace (s : Vm) (i : Nat) : Option (Vm × Int) :=
  if i ∉ s.ids then some (s, ERR_INVALID_ARGS)
  else
    let sp := s.space i
    (unmapRegions sp.arch s.mmu sp.vm.regionList).map fun mmu =>
      let pmm := freeLists sp.lists mmu.pmm sp.vm.regionList
      ({ s with mmu := { mmu with pmm := pmmFree pmm [sp.arch.ttVirt / PAGE_SIZE] }, ids := s.ids.erase i }, 0)

/-! ## regions at any address -/

/-- the regions go up from `g` to `hi` and are not empty -/
def Rising (hi : Nat) : Nat → List Region → Prop
  | g, [] => g ≤ hi
  | g, r :: l => g ≤ r.base ∧ 0 < r.size ∧ Rising hi (r.base + r.size) l

section
variable {a : Vmm.Aspace} {r q : Region} {hi g g' size : Nat} {l : List Region}

theorem Rising.mono (h : Rising hi g l) (hg : g' ≤ g) : Rising hi g' l := by
  cases l with
  | nil => exact Nat.le_trans hg h
  | cons r l => exact ⟨Nat.le_trans hg h.1, h.2⟩

theorem Rising.le (h : Rising hi g l) : g ≤ hi := by
  induction l generalizing g with
  | nil => exact h
  | cons r l ih =>
    obtain ⟨h1, -, h3⟩ := h
    have := ih h3
    omega

theorem Rising.mem (h : Rising hi g l) (hr : r ∈ l) : g ≤ r.base ∧ r.base + r.size ≤ hi ∧ 0 < r.size := by
  induction l generalizing g with
  | nil => cases hr
  | cons q l ih =>
    obtain ⟨h1, h4, h5⟩ := h
    rcases List.mem_cons.mp hr with rfl | hr
    · exact ⟨h1, h5.le, h4⟩
    · obtain ⟨h6, h7⟩ := ih h5 hr
      exact ⟨by omega, h7⟩

/-- two regions are the same, or have no address in common -/
theorem Rising.apart (h : Rising hi g l) (hr : r ∈ l) (hq : q ∈ l) :
    r = q ∨ r.base + r.size ≤ q.base ∨ q.base + q.size ≤ r.base := by
  induction l generalizing g with
  | nil => cases hr
  | cons x l ih =>
    obtain ⟨-, -, h3⟩ := h
    rcases List.mem_cons.mp hr with e1 | hr <;> rcases List.mem_cons.mp hq with e2 | hq
    · exact .inl (e1.trans e2.symm)
    · rw [e1]
      exact .inr (.inl (h3.mem hq).1)
    · rw [e2]
      exact .inr (.inr (h3.mem hr).1)
    · exact ih h3 hr hq

theorem Rising.base_inj (h : Rising hi g l) (hr : r ∈ l) (hq : q ∈ l) (e : r.base = q.base) : r = q := by
  have h1 := (h.mem hr).2.2
  have h2 := (h.mem hq).2.2
  rcases h.apart hr hq with h3 | h3
  · exact h3
  · lia

theorem Rising.nodup (h : Rising hi g l) : l.Nodup := by
  induction l generalizing g with
  | nil => exact .nil
  | cons q l ih =>
    obtain ⟨-, h2, h3⟩ := h
    refine List.nodup_cons.mpr ⟨fun hq => ?_, ih h3⟩
    have := (h3.mem hq).1
    omega

theorem Rising.erase (h : Rising hi g l) (r : Region) : Rising hi g (l.erase r) := by
  induction l generalizing g with
  | nil => exact h
  | cons q l ih =>
    obtain ⟨h1, h2, h3⟩ := h
    rw [List.erase_cons]
    split
    · exact h3.mono (by omega)
    · exact ⟨h1, h2, ih h3⟩

theorem Rising.mem_erase (h : Rising hi g l) : q ∈ l.erase r ↔ q ≠ r ∧ q ∈ l := by
  induction l generalizing g with
  | nil => simp
  | cons x l ih =>
    obtain ⟨-, h2, h3⟩ := h
    rw [List.erase_cons]
    split
    · rename_i e
      have e := eq_of_beq e
      rw [← e, List.mem_cons]
      refine ⟨fun hq => ⟨?_, .inr hq⟩, fun hq => hq.2.resolve_left hq.1⟩
      rintro rfl
      have := (h3.mem hq).1
      omega
    · rename_i e
      rw [List.mem_cons, List.mem_cons, ih h3]
      constructor
      · rintro (rfl | hq)
        · exact ⟨fun e' => e (beq_iff_eq.mpr e'), .inl rfl⟩
        · exact ⟨hq.1, .inr hq.2⟩
      · rintro ⟨h4, h5 | h5⟩
        · exact .inl h5
        · exact .inr ⟨h4, h5⟩

/-- the walk of `add_region_to_aspace` -/
theorem addWalk_rising {size : Nat} (hpos : 0 < r.size) (hhi : hi ≤ 2 ^ 64) (hr : r.base + r.size ≤ hi) :
    ∀ {g l'}, hi ≤ g + size → Rising hi g l → addWalk r l = some l' →
      Rising hi g l' ∧ List.Perm l' (r :: l) := by
  have hlast : last64 r.base r.size = r.base + r.size - 1 := last64_eq (by lia) hpos
  induction l with
  | nil => exact fun _ _ h => by cases h
  | cons last rest ih =>
    intro g l' hg hch h
    obtain ⟨h1, h4, h5⟩ := hch
    have hle := h5.le
    have hrest : ∀ {m}, addWalk r rest = some m →
        Rising hi g (last :: m) ∧ List.Perm (last :: m) (r :: last :: rest) := by
      intro m hm
      obtain ⟨h6, h7⟩ := ih (by lia) h5 hm
      exact ⟨⟨h1, h4, h6⟩, (h7.cons last).trans (.swap r last rest)⟩
    have hlast' : last64 last.base last.size = last.base + last.size - 1 := last64_eq (by lia) h4
    unfold Aspace.addWalk at h
    rw [hlast, hlast'] at h
    split at h
    · rename_i hafter
      cases rest with
      | nil =>
        cases h
        exact ⟨⟨h1, h4, by lia, hpos, hr⟩, .swap r last []⟩
      | cons next rest =>
        dsimp only at h
        split at h
        · cases h
          obtain ⟨-, h6⟩ := h5
          exact ⟨⟨h1, h4, by lia, hpos, by lia, h6⟩, .swap r last _⟩
        · obtain ⟨m, hm, rfl⟩ := Option.map_eq_some_iff.mp h
          exact hrest hm
    · obtain ⟨m, hm, rfl⟩ := Option.map_eq_some_iff.mp h
      exact hrest hm

/-- the region `r` was put in -/
structure Put (a a' : Vmm.Aspace) (r : Region) : Prop where
  base : a'.base = a.base
  size : a'.size = a.size
  rising : Rising (a.base + a.size) a.base a'.regionList
  perm : List.Perm a'.regionList (r :: a.regionList)

theorem Put.mem {a' : Vmm.Aspace} (h : Put a a' r) (q : Region) : q ∈ a'.regionList ↔ q = r ∨ q ∈ a.regionList := by
  rw [h.perm.mem_iff, List.mem_cons]

/-- the new region is apart from the old ones -/
theorem Put.new {a' : Vmm.Aspace} (h : Put a a' r) : ∀ q ∈ a.regionList, q.base ≠ r.base := by
  intro q hq e
  have hqr := h.rising.base_inj ((h.mem q).mpr (.inr hq)) ((h.mem r).mpr (.inl rfl)) e
  have hnd := h.perm.nodup_iff.mp h.rising.nodup
  exact (List.nodup_cons.mp hnd).1 (hqr ▸ hq)

theorem addRegionToAspace_rising (ha : a.Ok) (h : Rising (a.base + a.size) a.base a.regionList)
    (hb : r.base < 2 ^ 64) (hs : r.size < 2 ^ 64) :
    (a.addRegionToAspace r).2 < 0 ∨ Put a (a.addRegionToAspace r).1 r := by
  unfold Aspace.addRegionToAspace
  split
  · exact .inl (show ERR_OUT_OF_RANGE < 0 by decide)
  rename_i hin
  have hpos : 0 < r.size := by omega
  have hin' : a.isRegionInsideAspace r.base r.size = true := by
    by_contra hf
    exact hin (.inr (by simpa using hf))
  obtain ⟨h1, h2⟩ := isRegionInsideAspace_of ha hb hs hpos hin'
  have hlast : last64 r.base r.size = r.base + r.size - 1 := last64_eq (by have := ha.bound; omega) hpos
  split
  · rename_i hl
    refine .inr ⟨rfl, rfl, ⟨h1, hpos, h2⟩, ?_⟩
    rw [hl]
  · rename_i first rest hl
    rw [hl] at h
    split
    · rename_i hlt
      rw [hlast] at hlt
      refine .inr ⟨rfl, rfl, ⟨h1, hpos, by omega, h.2⟩, ?_⟩
      rw [hl]
    · split
      · rename_i l' hw
        obtain ⟨h3, h4⟩ := addWalk_rising hpos ha.bound h2 (Nat.le_refl _) h hw
        refine .inr ⟨rfl, rfl, h3, ?_⟩
        rw [hl]
        exact h4
      · exact .inl (show ERR_NO_MEMORY < 0 by decide)

/-- a spot that is picked lies in its gap -/
theorem pickSpot_inside {align gapEnd p : Nat} (hg : pickSpot align size g gapEnd = some p) (hp : p ≠ NO_SPOT)
    (he : gapEnd < 2 ^ 64) : g ≤ p ∧ p + size ≤ gapEnd + 1 := by
  unfold pickSpot at hg
  dsimp only at hg
  split_ifs at hg with h1 h2
  · cases hg
    exact absurd rfl hp
  · cases hg
    obtain ⟨h3, h4⟩ := h2
    rw [sub64_of_le he h3.le] at h4
    unfold add64 at h4
    lia

/-- the walk of `alloc_spot` -/
theorem spotWalk_rising (ha : a.Ok) {n : Nat} (hpos : 0 < size) :
    ∀ {l g i prev}, GapStart a prev g → a.base ≤ g → Rising (a.base + a.size) g l →
      (a.spotWalk (shl1 n) size i prev l).1 ≠ NO_SPOT →
      ∃ k ≤ l.length, (a.spotWalk (shl1 n) size i prev l).2 = i + k ∧
        Rising (a.base + a.size) g (l.insertIdx k ⟨(a.spotWalk (shl1 n) size i prev l).1, size⟩) := by
  have hb := ha.bound
  have hapos := ha.pos
  have hsz := ha.sizeLt
  intro l
  induction l with
  | nil =>
    intro g i prev hg hlo h hne
    have hle := h.le
    rw [spotWalk] at hne ⊢
    cases hc : a.checkGap prev none (shl1 n) size with
    | none =>
      rw [hc] at hne
      exact absurd rfl hne
    | some p =>
      rw [hc] at hne
      refine ⟨0, le_rfl, rfl, ?_⟩
      unfold Aspace.checkGap at hc
      dsimp only at hc
      rw [gapBeg_eq hg (by lia), last64_eq hb hapos] at hc
      split at hc
      · cases hc
        exact absurd rfl hne
      · rename_i hne'
        have hglt : g < 2 ^ 64 := by
          by_contra hge
          have : g = 2 ^ 64 := by lia
          apply hne'
          unfold add64
          lia
        rw [Nat.mod_eq_of_lt hglt] at hc
        obtain ⟨h1, h2⟩ := pickSpot_inside hc hne (by lia)
        exact ⟨h1, hpos, show p + size ≤ _ by lia⟩
  | cons r l ih =>
    intro g i prev hg hlo h hne
    obtain ⟨h1, h2, h3⟩ := h
    have hle := h3.le
    rw [spotWalk] at hne ⊢
    cases hc : a.checkGap prev (some r) (shl1 n) size with
    | some p =>
      rw [hc] at hne
      refine ⟨0, Nat.zero_le _, rfl, ?_⟩
      unfold Aspace.checkGap at hc
      dsimp only at hc
      rw [gapBeg_eq hg (by lia), Nat.mod_eq_of_lt (by lia)] at hc
      split at hc
      · cases hc
      · rename_i hne'
        rw [sub64_of_le (by lia) (by lia)] at hc
        obtain ⟨h4, h5⟩ := pickSpot_inside hc hne (by lia)
        exact ⟨h4, hpos, show p + size ≤ r.base by lia, h2, h3⟩
    | none =>
      rw [hc] at hne
      dsimp only at hne ⊢
      have hr : GapStart a (some r) (r.base + r.size) := rfl
      obtain ⟨k, hk, e1, e2⟩ := ih (i := i + 1) hr (by lia) h3 hne
      refine ⟨k + 1, by simpa using hk, by lia, ?_⟩
      rw [List.insertIdx_succ_cons]
      exact ⟨h1, h2, e2⟩

/-- **`alloc_region`** puts the region into the list, or leaves the list as it is. -/
theorem allocRegion_rising (ha : a.Ok) (h : Rising (a.base + a.size) a.base a.regionList) {mem : Bool}
    {specific : Option Nat} {k : Nat} (hpos : 0 < size) (hs : size < 2 ^ 64)
    (hsp : ∀ vaddr, specific = some vaddr → vaddr < 2 ^ 64) : (a.allocRegion mem size specific k).2 = false ∨
      Put a (a.allocRegion mem size specific k).1 ⟨regionBase a size specific k, size⟩ := by
  unfold Aspace.allocRegion
  split
  · exact .inl rfl
  cases specific with
  | some vaddr =>
    dsimp only
    rcases addRegionToAspace_rising ha h (r := ⟨vaddr, size⟩) (hsp vaddr rfl) hs with h1 | h1
    · rw [if_pos h1]
      exact .inl rfl
    · split
      · exact .inl rfl
      · exact .inr h1
  | none =>
    dsimp only
    by_cases hne : (a.allocSpot size k).1 = NO_SPOT
    · rw [if_pos hne]
      exact .inl rfl
    · rw [if_neg hne]
      have hg : GapStart a none a.base := rfl
      obtain ⟨j, hj, e1, e2⟩ := spotWalk_rising ha (n := max k PAGE_SIZE_SHIFT) hpos (i := 0) hg le_rfl h hne
      have hj' : (a.allocSpot size k).2 = j := e1.trans (Nat.zero_add j)
      refine .inr ⟨rfl, rfl, ?_, ?_⟩
      · show Rising _ _ (a.regionList.insertIdx (a.allocSpot size k).2 _)
        rw [hj']
        exact e2
      · show List.Perm (a.regionList.insertIdx (a.allocSpot size k).2 _) _
        rw [hj']
        exact List.perm_insertIdx _ _ hj

end

/-! ## one address space -/

/-- the bytes of a region that are mapped and unmapped -/
def mapLen (r : Region) : Nat := pageCount r.size * PAGE_SIZE

theorem mapLen_le (r : Region) : mapLen r ≤ r.size :=
  (Nat.mul_le_mul_right _ (Nat.mod_le _ _)).trans (Nat.div_mul_le_self _ _)

/-- the leaf of page `k` belongs to the region: it lies in it and leads to one of its pages, if it has pages -/
def Belongs (sp : Space) (q : Nat × Nat) (k : Nat) (r : Region) : Prop :=
  PAGE_SIZE ∣ r.base ∧ LeafIn q k r.base (mapLen r) ∧ (sp.lists r.base = [] ∨ leafPage q k ∈ sp.lists r.base)

/-- **One address space**: its tables under `root` with the labels `lab`, its regions and what they map. -/
structure SpaceInv (mmu : Mmu) (sp : Space) (root : Nat) (lab : Nat → Option (Label Unit)) : Prop where
  virt : sp.arch.ttVirt = PAGE_SIZE * root
  root_ne : root ≠ 0
  base : sp.arch.base = sp.vm.base
  size : sp.arch.size = sp.vm.size
  ok : sp.vm.Ok
  tree : TableTree mmu root lab
  zeroed : Zeroed mmu lab
  rising : Rising (sp.vm.base + sp.vm.size) sp.vm.base sp.vm.regionList
  lists : ∀ b, sp.lists b ≠ [] → ∃ r ∈ sp.vm.regionList, r.base = b
  leaves : ∀ k < PAGES, ∀ q, look mmu root k = some q → ∃ r ∈ sp.vm.regionList, Belongs sp q k r
  /-- every table but the root is there for a region -/
  tables : ∀ g l p, lab g = some ⟨(), l, p⟩ → g ≠ root →
    ∃ r ∈ sp.vm.regionList, PAGE_SIZE ∣ r.base ∧ Meets l p r.base (mapLen r)

section
variable {mmu mmu' : Mmu} {sp : Space} {root : Nat} {lab lab' : Nat → Option (Label Unit)} {r : Region}

/-- pages mapped in a region -/
theorem SpaceInv.map (h : SpaceInv mmu sp root lab) (hr : r ∈ sp.vm.regionList) (flags : Nat) {va paddr count : Nat}
    (h1 : r.base ≤ va) (h2 : va + count * PAGE_SIZE ≤ r.base + mapLen r) (hal : PAGE_SIZE ∣ va → PAGE_SIZE ∣ r.base)
    (hp : paddr < 2 ^ 64) (hpages : sp.lists r.base = [] ∨ ∃ f, paddr = PAGE_SIZE * f ∧ f + count ≤ 2 ^ 36 ∧
      CacheOk flags ∧ ∀ j < count, f + j ∈ sp.lists r.base) :
    ∃ mmu' ret lab', archMmuMap mmu sp.arch va paddr count flags = some (mmu', ret) ∧ SpaceInv mmu' sp root lab' ∧
      Edited (fun _ _ => True) mmu lab mmu' lab' := by
  obtain ⟨mmu', ret, lab', e1, e2, e3, e4⟩ := archMmuMap_spec h.tree h.virt va count flags hp
  refine ⟨mmu', ret, lab', e1, ⟨h.virt, h.root_ne, h.base, h.size, h.ok, e2, e3.zeroed h.zeroed, h.rising, h.lists,
    fun k hk q hq => ?_, fun g l p hg hne => ?_⟩, e3.mono fun _ _ _ => trivial⟩
  · rcases e4 with e4 | ⟨hv, e4⟩
    · rw [e4 k hk] at hq
      exact h.leaves k hk q hq
    · have h3 := e4 k hk
      split at h3
      · obtain ⟨-, hleaf⟩ := h3
        refine ⟨r, hr, hal hv, ?_⟩
        have hin : LeafIn q k va (count * PAGE_SIZE) := by
          obtain ⟨l, b, h4, h5, h6, -⟩ := hleaf
          rw [hq] at h4
          cases h4
          exact ⟨h5, h6⟩
        refine ⟨⟨h1.trans hin.1, hin.2.trans h2⟩, hpages.imp_right ?_⟩
        rintro ⟨f, rfl, hf, hflags, hmem⟩
        obtain ⟨q', h4, -, j, hj, h5⟩ := hleaf.page (attr_outPage hflags) hv hf
        rw [hq] at h4
        cases h4
        rw [h5]
        exact hmem j hj
      · rw [h3] at hq
        exact h.leaves k hk q hq
  · rcases e3.new g _ hg with h3 | ⟨h3, h4⟩
    · exact h.tables g l p h3 hne
    · exact ⟨r, hr, hal h3, h4.mono h1 h2⟩

/-- the keys of an entry -/
theorem entry_keys {l p j : Nat} (hj : j < 512) :
    (p * 512 + j) * 512 ^ l / 512 ^ (l + 1) = p ∧ digit 512 l ((p * 512 + j) * 512 ^ l) = j :=
  entry_key (B := 512) (by decide) hj (Nat.mul_div_cancel _ (Nat.pow_pos (by decide)))

/-- a leaf in a table -/
theorem look_entry (h : TableTree mmu root lab) {g l p j : Nat} (hg : lab g = some ⟨(), l, p⟩) (hj : j < 512)
    (ht : mmu.mem (pteAddr g j) &&& MMU_PTE_DESCRIPTOR_MASK = leafDescriptor l) : (p * 512 + j) * 512 ^ l < PAGES ∧
      look mmu root ((p * 512 + j) * 512 ^ l) = some (l, mmu.mem (pteAddr g j)) := by
  obtain ⟨e1, e2⟩ := entry_keys (l := l) (p := p) hj
  constructor
  · have hcov := h.covers hg
    have hlt : (p * 512 + j + 1) * 512 ^ l ≤ (p + 1) * 512 ^ (l + 1) := by
      rw [Nat.pow_succ, Nat.mul_comm (512 ^ l), ← Nat.mul_assoc]
      exact Nat.mul_le_mul_right _ (by omega)
    rw [← Nat.succ_mul, blockSize, Nat.mul_left_comm, Nat.mul_le_mul_left_iff (by decide)] at hcov
    rw [Nat.succ_mul] at hlt
    change (p + 1) * 512 ^ (l + 1) ≤ PAGES at hcov
    have := Nat.pow_pos (show 0 < 512 by decide) (n := l)
    omega
  · have hw := h.linked.walk (by decide) (k := (p * 512 + j) * 512 ^ l) (by rw [e1]; exact hg)
    change look mmu root _ = _ at hw
    rw [hw]
    cases l with
    | zero => rw [walk, e2, descStore, descView_leaf ht]
    | succ l => rw [walk, e2, descStore, descView_leaf ht]

/-- an entry's addresses are the table's -/
theorem block_range (l p j : Nat) (hj : j < 512) : p * blockSize (l + 1) ≤ (p * 512 + j) * blockSize l ∧
      (p * 512 + j + 1) * blockSize l ≤ (p + 1) * blockSize (l + 1) := by
  rw [blockSize_succ, Nat.mul_comm (blockSize l), ← Nat.mul_assoc, ← Nat.mul_assoc]
  exact ⟨Nat.mul_le_mul_right _ (by lia), Nat.mul_le_mul_right _ (by lia)⟩

/-- a table that is not empty is there for what it holds -/
theorem tables_of_leaves (h : TableTree mmu root lab) (hz : Zeroed mmu lab) {rs : List Region}
    (hleaf : ∀ k < PAGES, ∀ q, look mmu root k = some q → ∃ r ∈ rs, PAGE_SIZE ∣ r.base ∧ LeafIn q k r.base (mapLen r))
    (hclear : ∀ g l p, lab g = some ⟨(), l, p⟩ → g ≠ root → Clear mmu g →
      ∃ r ∈ rs, PAGE_SIZE ∣ r.base ∧ Meets l p r.base (mapLen r)) :
    ∀ l g p, lab g = some ⟨(), l, p⟩ → g ≠ root → ∃ r ∈ rs, PAGE_SIZE ∣ r.base ∧ Meets l p r.base (mapLen r) := by
  have key : ∀ l g p, lab g = some ⟨(), l, p⟩ → g ≠ root → (∀ j < 512, ∀ m, l = m + 1 →
      mmu.mem (pteAddr g j) &&& MMU_PTE_DESCRIPTOR_MASK = MMU_PTE_L012_DESCRIPTOR_TABLE →
      ∃ r ∈ rs, PAGE_SIZE ∣ r.base ∧ Meets m (p * 512 + j) r.base (mapLen r)) →
      ∃ r ∈ rs, PAGE_SIZE ∣ r.base ∧ Meets l p r.base (mapLen r) := by
    intro l g p hg hne hsub
    by_cases hc : Clear mmu g
    · exact hclear g l p hg hne hc
    · obtain ⟨j, hj⟩ := not_forall.mp hc
      obtain ⟨hj, hn⟩ := Classical.not_imp.mp hj
      have hp := block_range l p j hj
      rcases hz g j (by simp [hg]) hj with h0 | h0
      · exact absurd h0 hn
      · rcases h.plain g l p hg j hj with h1 | h1 | h1
        · exact absurd h1 h0
        · obtain ⟨h2, h3⟩ := look_entry h hg hj h1
          obtain ⟨r, hr, hb, h4, h5⟩ := hleaf _ h2 _ h3
          dsimp only at h4 h5
          rw [Nat.mul_div_cancel _ (Nat.pow_pos (by decide))] at h4 h5
          have hpos := blockSize_pos l
          obtain ⟨hp1, hp2⟩ := hp
          rw [Nat.succ_mul] at h5 hp2
          exact ⟨r, hr, hb, _, hp1, by omega, h4, by omega⟩
        · obtain ⟨m, rfl⟩ := Nat.exists_eq_succ_of_ne_zero (Nat.pos_iff_ne_zero.mp h1.1)
          obtain ⟨r, hr, hb, x, x1, x2, x3, x4⟩ := hsub j hj m rfl h1.2
          exact ⟨r, hr, hb, x, hp.1.trans x1, x2.trans_le hp.2, x3, x4⟩
  intro l
  induction l with
  | zero => exact fun g p hg hne => key 0 g p hg hne fun j _ m hm => by cases hm
  | succ l ih =>
    refine fun g p hg hne => key (l + 1) g p hg hne fun j hj m hm ht => ?_
    cases hm
    have hc := h.child hg hj ht
    exact ih _ _ hc (h.ne_root hc (Nat.lt_of_succ_le (h.level_le hg)))

/-- the region does not reach over the end of what the tables can map -/
def Reachable (r : Region) : Prop := r.base + mapLen r ≤ 2 ^ MMU_SIZE_SHIFT ∨ 2 ^ MMU_SIZE_SHIFT ≤ r.base

instance (r : Region) : Decidable (Reachable r) := inferInstanceAs (Decidable (_ ∨ _))

/-- no leaf and no table is past the end of the tables -/
theorem leaf_below {q : Nat × Nat} {k a size : Nat} (hk : k < PAGES) (h : LeafIn q k a size) :
    a < 2 ^ MMU_SIZE_SHIFT := by
  have h1 := h.1
  rw [blockSize, Nat.mul_left_comm] at h1
  have h2 : k / 512 ^ q.1 * 512 ^ q.1 ≤ k := Nat.div_mul_le_self _ _
  rw [PAGES_eq] at hk
  simp only [PAGE_SIZE, MMU_SIZE_SHIFT] at *
  omega

theorem table_below (h : TableTree mmu root lab) {g l p a size : Nat} (hg : lab g = some ⟨(), l, p⟩)
    (hm : Meets l p a size) : a < 2 ^ MMU_SIZE_SHIFT := by
  obtain ⟨x, -, x2, x3, -⟩ := hm
  have hcov := h.covers hg
  rw [← Nat.succ_mul, PAGES_eq] at hcov
  change (p + 1) * blockSize (l + 1) ≤ _ at hcov
  simp only [PAGE_SIZE, MMU_SIZE_SHIFT] at *
  omega

theorem Belongs.drop {q : Nat × Nat} {k : Nat} {x : Region} (h : Belongs sp q k x) (hne : x.base ≠ r.base) :
    Belongs (sp.drop r) q k x := by
  obtain ⟨h1, h2, h3⟩ := h
  refine ⟨h1, h2, ?_⟩
  show Function.update sp.lists r.base [] x.base = [] ∨ _ ∈ Function.update sp.lists r.base [] x.base
  rwa [Function.update_of_ne hne]

/-- **A region is unmapped**, and leaves the list. -/
theorem SpaceInv.unmap (h : SpaceInv mmu sp root lab) (hr : r ∈ sp.vm.regionList) (hreach : Reachable r) :
    ∃ mmu' ret lab', archMmuUnmap mmu sp.arch r.base (pageCount r.size) = some (mmu', ret) ∧
      SpaceInv mmu' (sp.drop r) root lab' ∧ Edited (fun _ _ => True) mmu lab mmu' lab' := by
  obtain ⟨hlo, hhi, hpos⟩ := h.rising.mem hr
  have hb := h.ok.bound
  have hval : isValidVaddr sp.arch r.base = true := by
    rw [isValidVaddr, h.base, h.size, last64_eq hb h.ok.pos]
    exact decide_eq_true (by omega)
  have hmem : ∀ x, x ∈ (sp.drop r).vm.regionList ↔ x ≠ r ∧ x ∈ sp.vm.regionList := fun x => h.rising.mem_erase
  have hbase : ∀ x, x ≠ r → x ∈ sp.vm.regionList → x.base ≠ r.base :=
    fun x hne hx e => hne (h.rising.base_inj hx hr e)
  -- what does not depend on the tables
  have hrest : ∀ {m : Mmu} {lb}, TableTree m root lb → Zeroed m lb →
      (∀ k < PAGES, ∀ q, look m root k = some q → ∃ x ∈ (sp.drop r).vm.regionList, Belongs (sp.drop r) q k x) →
      (∀ g l p, lb g = some ⟨(), l, p⟩ → g ≠ root →
        ∃ x ∈ (sp.drop r).vm.regionList, PAGE_SIZE ∣ x.base ∧ Meets l p x.base (mapLen x)) →
      SpaceInv m (sp.drop r) root lb := by
    intro m lb h1 h2 h3 h4
    refine ⟨h.virt, h.root_ne, h.base, h.size, ⟨h.ok.base, h.ok.size, h.ok.pos, h.ok.sizeLt, h.ok.bound⟩, h1, h2,
      h.rising.erase r, fun b hne => ?_, h3, h4⟩
    change Function.update sp.lists r.base [] b ≠ [] at hne
    have hbr : b ≠ r.base := by
      rintro rfl
      rw [Function.update_self] at hne
      exact hne rfl
    rw [Function.update_of_ne hbr] at hne
    obtain ⟨x, hx, rfl⟩ := h.lists b hne
    exact ⟨x, (hmem x).mpr ⟨fun e => hbr (by rw [e]), hx⟩, rfl⟩
  rcases archMmuUnmap_spec h.tree h.root_ne h.virt hval (pageCount r.size) (fun _ _ => True) with
    ⟨e1, hno⟩ | ⟨mmu', lab', e1, e2, e3, e4, e5, e6⟩
  · -- nothing was mapped
    have hout : PAGE_SIZE ∣ r.base → 2 ^ MMU_SIZE_SHIFT ≤ r.base := by
      intro hd
      rcases hno with hno | hno
      · exact absurd hd hno
      · rcases hreach with h1 | h1
        · exact absurd hno (Nat.not_lt.mpr h1)
        · exact h1
    refine ⟨mmu, _, lab, e1, hrest h.tree h.zeroed (fun k hk q hq => ?_) fun g l p hg hne => ?_, Edited.refl _ _ _⟩
    · obtain ⟨x, hx, hbel⟩ := h.leaves k hk q hq
      have hxr : x ≠ r := by
        rintro rfl
        have h1 := leaf_below hk hbel.2.1
        have h2 := hout hbel.1
        omega
      exact ⟨x, (hmem x).mpr ⟨hxr, hx⟩, hbel.drop (hbase x hxr hx)⟩
    · obtain ⟨x, hx, hd, hm⟩ := h.tables g l p hg hne
      have hxr : x ≠ r := by
        rintro rfl
        have h1 := table_below h.tree hg hm
        have h2 := hout hd
        omega
      exact ⟨x, (hmem x).mpr ⟨hxr, hx⟩, hd, hm⟩
  · have hleaves : ∀ k < PAGES, ∀ q, look mmu' root k = some q →
        ∃ x ∈ (sp.drop r).vm.regionList, Belongs (sp.drop r) q k x := by
      intro k hk q hq
      rw [e4 k hk] at hq
      cases hl : look mmu root k with
      | none =>
        rw [cut_none hl] at hq
        cases hq
      | some q' =>
        rw [cut_some (l := q'.1) (q := q'.2) hl] at hq
        split at hq
        · cases hq
        · rename_i hnot
          cases hq
          obtain ⟨x, hx, hbel⟩ := h.leaves k hk q' hl
          have hxr : x ≠ r := by
            rintro rfl
            obtain ⟨-, ⟨h1, h2⟩, -⟩ := hbel
            have hbp := blockSize_pos q'.1
            rw [Nat.succ_mul] at h2
            refine hnot ⟨?_, ?_, ?_⟩
            · show 0 < mapLen x
              omega
            · show k / 512 ^ q'.1 * blockSize q'.1 < x.base + mapLen x
              omega
            · show x.base < (k / 512 ^ q'.1 + 1) * blockSize q'.1
              rw [Nat.succ_mul]
              omega
          exact ⟨x, (hmem x).mpr ⟨hxr, hx⟩, hbel.drop (hbase x hxr hx)⟩
    refine ⟨mmu', 0, lab', e1, hrest e2 (e3.zeroed h.zeroed) hleaves fun g l p hg hne => ?_, e3⟩
    refine tables_of_leaves e2 (e3.zeroed h.zeroed) (fun k hk q hq => ?_) (fun g l p hg hne hclear => ?_) l g p hg hne
    · obtain ⟨x, hx, hbel⟩ := hleaves k hk q hq
      exact ⟨x, hx, hbel.1, hbel.2.1⟩
    · have hold : lab g = some ⟨(), l, p⟩ := by rw [← e5 g (by simp [hg]), hg]
      obtain ⟨x, hx, hd, hm⟩ := h.tables g l p hold hne
      have hxr : x ≠ r := by
        rintro rfl
        exact e6 g l p hne hg hclear hm
      exact ⟨x, (hmem x).mpr ⟨hxr, hx⟩, hd, hm⟩

/-- an address space that nobody touches -/
theorem SpaceInv.frame (h : SpaceInv mmu sp root lab) (hw : mmu'.pmm.Wf)
    (hram : ∀ p, mmu'.pmm.Ram p ↔ mmu.pmm.Ram p) (hk : ∀ p, lab p ≠ none →
      mmu'.pmm.nonfree p = mmu.pmm.nonfree p ∧ ∀ i < 512, mmu'.mem (pteAddr p i) = mmu.mem (pteAddr p i)) :
    SpaceInv mmu' sp root lab := by
  obtain ⟨h1, h2⟩ := h.tree.frame hw hram hk
  refine ⟨h.virt, h.root_ne, h.base, h.size, h.ok, h1, fun f i hf hi => ?_, h.rising, h.lists, fun k hkk q hq => ?_,
    h.tables⟩
  · rw [(hk f hf).2 i hi]
    exact h.zeroed f i hf hi
  · rw [h2 k hkk] at hq
    exact h.leaves k hkk q hq

/-- a new region, which nothing is mapped in yet -/
theorem SpaceInv.put (h : SpaceInv mmu sp root lab) {vm : Vmm.Aspace} (hput : Put sp.vm vm r) (pages : List Nat) :
    SpaceInv mmu { sp with vm, lists := Function.update sp.lists r.base pages } root lab := by
  have hb := hput.base
  have hs := hput.size
  have hmem := hput.mem
  refine ⟨h.virt, h.root_ne, h.base.trans hb.symm, h.size.trans hs.symm, ?_, h.tree, h.zeroed, ?_, fun b hne => ?_,
    fun k hk q hq => ?_, fun g l p hg hne => ?_⟩
  · have hok := h.ok
    exact ⟨hb ▸ hok.base, hs ▸ hok.size, hs ▸ hok.pos, hs ▸ hok.sizeLt, hb ▸ hs ▸ hok.bound⟩
  · show Rising (vm.base + vm.size) vm.base vm.regionList
    rw [hb, hs]
    exact hput.rising
  · change Function.update sp.lists r.base pages b ≠ [] at hne
    by_cases e : b = r.base
    · exact ⟨r, (hmem r).mpr (.inl rfl), e.symm⟩
    · rw [Function.update_of_ne e] at hne
      obtain ⟨x, hx, hxb⟩ := h.lists b hne
      exact ⟨x, (hmem x).mpr (.inr hx), hxb⟩
  · obtain ⟨x, hx, h1, h2, h3⟩ := h.leaves k hk q hq
    refine ⟨x, (hmem x).mpr (.inr hx), h1, h2, ?_⟩
    show Function.update sp.lists r.base pages x.base = [] ∨ _ ∈ Function.update sp.lists r.base pages x.base
    rwa [Function.update_of_ne (hput.new x hx)]
  · obtain ⟨x, hx, hd⟩ := h.tables g l p hg hne
    exact ⟨x, (hmem x).mpr (.inr hx), hd⟩

/-- the page list of a region is taken off -/
theorem SpaceInv.detach (h : SpaceInv mmu sp root lab) (b : Nat) :
    SpaceInv mmu { sp with lists := Function.update sp.lists b [] } root lab := by
  refine ⟨h.virt, h.root_ne, h.base, h.size, h.ok, h.tree, h.zeroed, h.rising, fun c hne => ?_, fun k hk q hq => ?_,
    h.tables⟩
  · change Function.update sp.lists b [] c ≠ [] at hne
    by_cases e : c = b
    · rw [e, Function.update_self] at hne
      exact absurd rfl hne
    · rw [Function.update_of_ne e] at hne
      exact h.lists c hne
  · obtain ⟨x, hx, h1, h2, h3⟩ := h.leaves k hk q hq
    refine ⟨x, hx, h1, h2, ?_⟩
    show Function.update sp.lists b [] x.base = [] ∨ _ ∈ Function.update sp.lists b [] x.base
    by_cases e : x.base = b
    · rw [e, Function.update_self]
      exact .inl rfl
    · rwa [Function.update_of_ne e]

end

end VmmPages
end LkHv
