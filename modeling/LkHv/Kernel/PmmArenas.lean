import LkHv.Kernel.Pmm

/-!
# Pages from several arenas

`pmm_alloc_pages` walks the arenas in the order of their list and leaves the walk when an arena is
exhausted.

* `eligiblePages`    the free pages of the arenas of a kind, in the order of the list;
* `AllocExact`       as many of these pages as asked for, or all of them;
* `Covers`           the first arena suffices, or has what there is;
* `pmm_alloc_pages_exact`         the two are the same;
* `pmm_alloc_pages_two_arenas`    not so for two arenas with a page each.
-/

namespace LkHv

/-- the free pages of the arenas of a kind, in the order of the list -/
def eligiblePages (elig : PmmArena → Bool) (as : List PmmArena) : List Nat :=
  (as.filter elig).flatMap PmmArena.freeList

/-- **The claim for a kind of arenas**: the first `count` pages of its free lists, arena after arena, move to the
caller's list, and no other page moves. -/
structure AllocExact (elig : PmmArena → Bool) (s : Pmm) (count : Nat) : Prop where
  ret : (pmmAllocPages s count).2.length = min count (eligiblePages elig s.arenaList).length
  order : (pmmAllocPages s count).2 = (eligiblePages elig s.arenaList).take count
  moved : Took s.nonfree s.arenaList (pmmAllocPages s count).1.arenaList (pmmAllocPages s count).2
  flags : (pmmAllocPages s count).1.nonfree = setNonfree s.nonfree (pmmAllocPages s count).2

/-- the first arena has the pages, or no eligible one behind it has any; an arena that is not eligible has none -/
def Covers (elig : PmmArena → Bool) (count : Nat) : List PmmArena → Prop
  | [] => True
  | a :: as => count = 0 ∨ (elig a = true ∧ count ≤ a.freeList.length) ∨
      ((elig a = true ∨ a.freeList = []) ∧ eligiblePages elig as = [])

section
variable {elig : PmmArena → Bool} {as : List PmmArena} {a : PmmArena} {count p : Nat}

theorem eligiblePages_cons : eligiblePages elig (a :: as) =
    if elig a then a.freeList ++ eligiblePages elig as else eligiblePages elig as := by
  unfold eligiblePages
  rw [List.filter_cons]
  split
  · exact List.flatMap_cons
  · rfl

theorem hasIn_of_eligible {nonfree : Nat → Bool} (h : ArenasWf nonfree as) (hp : p ∈ eligiblePages elig as) :
    HasIn as p := by
  obtain ⟨b, hb, hpb⟩ := List.mem_flatMap.mp hp
  have hb := (List.mem_filter.mp hb).1
  exact ⟨b, hb, ((h.mem b hb p).mp hpb).1⟩

/-! ## the walk -/

theorem allocWalk_zero (as : List PmmArena) : (allocWalk as 0).2 = [] := by
  induction as with
  | nil => rfl
  | cons a as ih =>
    rw [allocWalk, List.take_zero, if_neg (Nat.not_lt_zero _)]
    exact ih

/-- the walk takes pages of the first arena only -/
theorem allocWalk_first (a : PmmArena) (as : List PmmArena) (need : Nat) :
    (allocWalk (a :: as) need).2 = a.freeList.take need := by
  rw [allocWalk]
  split
  · rfl
  · rename_i hlen
    have hle := List.length_take_le need a.freeList
    rw [show need - (a.freeList.take need).length = 0 by omega]
    exact (congrArg (_ ++ ·) (allocWalk_zero as)).trans (List.append_nil _)

/-- the pages of the first arena are the first eligible ones -/
theorem take_eligible {nonfree : Nat → Bool} (h : ArenasWf nonfree (a :: as)) :
    a.freeList.take count = (eligiblePages elig (a :: as)).take count ↔ Covers elig count (a :: as) := by
  obtain ⟨⟨hmem, -, hdisj⟩, ht⟩ := arenasWf_cons.mp h
  rw [eligiblePages_cons]
  by_cases h0 : count = 0
  · rw [h0, List.take_zero, List.take_zero]
    exact ⟨fun _ => .inl rfl, fun _ => rfl⟩
  by_cases he : elig a = true
  · rw [if_pos he, List.take_append]
    constructor
    · intro hsame
      have hrest := List.self_eq_append_right.mp hsame
      obtain hle | hnil := List.take_eq_nil_iff.mp hrest
      · exact .inr (.inl ⟨he, Nat.le_of_sub_eq_zero hle⟩)
      · exact .inr (.inr ⟨.inl he, hnil⟩)
    · rintro (hz | ⟨-, hle⟩ | ⟨-, hnil⟩)
      · exact absurd hz h0
      · rw [Nat.sub_eq_zero_of_le hle, List.take_zero, List.append_nil]
      · rw [hnil, List.take_nil, List.append_nil]
  · rw [if_neg he]
    constructor
    · intro hsame
      -- a page of both would belong to two arenas
      have hnone : a.freeList.take count = [] := by
        apply List.eq_nil_iff_forall_not_mem.mpr
        intro p hp
        have hlater : p ∈ eligiblePages elig as := List.mem_of_mem_take (hsame ▸ hp)
        exact hdisj p ((hmem p).mp (List.mem_of_mem_take hp)).1 (hasIn_of_eligible ht hlater)
      refine .inr (.inr ⟨.inr ?_, ?_⟩)
      · exact (List.take_eq_nil_iff.mp hnone).resolve_left h0
      · exact (List.take_eq_nil_iff.mp (hsame ▸ hnone)).resolve_left h0
    · rintro (hz | ⟨hyes, -⟩ | ⟨hyes | hnil, hrest⟩)
      · exact absurd hz h0
      · exact absurd hyes he
      · exact absurd hyes he
      · rw [hnil, hrest]

end

/-- **Pages from several arenas.**  The request gets the pages of the claim exactly when the first arena covers it,
whatever the arenas are that count. -/
theorem pmm_alloc_pages_exact (elig : PmmArena → Bool) {s : Pmm} (h : ArenasWf s.nonfree s.arenaList) (count : Nat) :
    AllocExact elig s count ↔ Covers elig count s.arenaList := by
  obtain ⟨as, nonfree, refused⟩ := s
  have hmoved : Took nonfree as (pmmAllocPages ⟨as, nonfree, refused⟩ count).1.arenaList
      (pmmAllocPages ⟨as, nonfree, refused⟩ count).2 := by
    rw [pmmAllocPages]
    split
    · exact Took.none h
    · exact allocWalk_took h
  have hflags : (pmmAllocPages ⟨as, nonfree, refused⟩ count).1.nonfree =
      setNonfree nonfree (pmmAllocPages ⟨as, nonfree, refused⟩ count).2 := by
    rw [pmmAllocPages]
    split
    · funext p
      simp [setNonfree]
    · rfl
  have hpages : (pmmAllocPages ⟨as, nonfree, refused⟩ count).2 = (allocWalk as count).2 := by
    rw [pmmAllocPages]
    split
    · rename_i h0
      rw [h0, allocWalk_zero]
    · rfl
  have hiff : (pmmAllocPages ⟨as, nonfree, refused⟩ count).2 = (eligiblePages elig as).take count ↔
      Covers elig count as := by
    rw [hpages]
    cases as with
    | nil => exact ⟨fun _ => trivial, fun _ => List.take_nil.symm⟩
    | cons a as =>
      rw [allocWalk_first]
      exact take_eligible h
  constructor
  · exact fun hx => hiff.mp hx.order
  · intro hc
    have horder := hiff.mpr hc
    refine ⟨?_, horder, hmoved, hflags⟩
    rw [horder, List.length_take]

/-- an arena of one page -/
def onePage (base : Nat) : PmmArena := ⟨base, PAGE_SIZE, 0, true, []⟩

/-- two arenas with a free page each -/
def twoArenas : Pmm := pmmAddArena (pmmAddArena Pmm.empty (onePage PAGE_SIZE)) (onePage (3 * PAGE_SIZE))

theorem twoArenas_wf : twoArenas.Wf := by
  refine Pmm.Wf.addArena (Pmm.Wf.addArena Pmm.empty_wf ?_ ?_) ?_ ?_
  · exact ⟨by decide, by decide, by decide⟩
  · intro b hb
    cases hb
  · exact ⟨by decide, by decide, by decide⟩
  · intro b hb p hp hq
    obtain rfl : b = ⟨PAGE_SIZE, PAGE_SIZE, 0, true, [1]⟩ := List.mem_singleton.mp hb
    simp only [PmmArena.Has, PmmArena.basePfn, PmmArena.pages, onePage, PAGE_SIZE] at hp hq
    omega

/-- the theorem for one page of two arenas -/
theorem pmm_alloc_pages_one : AllocExact PmmArena.kmap twoArenas 1 ↔ Covers PmmArena.kmap 1 twoArenas.arenaList :=
  pmm_alloc_pages_exact _ twoArenas_wf.arenas 1

/-- **Two pages of two arenas.**  The first arena is exhausted after one, and the walk ends. -/
theorem pmm_alloc_pages_two_arenas : ¬ ∀ (s : Pmm) (count : Nat), s.Wf → AllocExact PmmArena.kmap s count := by
  intro hall
  have hret := (hall twoArenas 2 twoArenas_wf).ret
  exact absurd hret (by decide)

end LkHv
