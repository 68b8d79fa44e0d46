import Mathlib.Algebra.Order.Group.Nat
import Mathlib.Data.List.Nodup
import Mathlib.Data.List.Range

/-!
# The page allocator (`kernel/vm/pmm.c`)

A page is its frame number (the physical address divided by `PAGE_SIZE`), an arena a range of
frames with its free list, and `nonfree` is the `VM_PAGE_FLAG_NONFREE` bit of every page.

* `pmmAddArena`, `pmmAllocPages`, `pmmAllocPage`, `pmmAllocContiguous`, `pmmFree`   the source's;
* `Pmm.Wf`     the free lists hold every page of their arena without the flag once, and no other page;
* `Takes`      what an allocation does: it moves the pages it returns out of the free lists;
* `Gives`      what `pmm_free` does with pages that are out.

`refused` is a ghost: the number of requests that were not met.
-/

namespace LkHv

def PAGE_SIZE : Nat := 4096
def PAGE_SIZE_SHIFT : Nat := 12

/-- `pmm_arena_t` -/
structure PmmArena where
  base : Nat
  size : Nat
  priority : Nat
  /-- `PMM_ARENA_FLAG_KMAP` -/
  kmap : Bool
  freeList : List Nat

namespace PmmArena

def basePfn (a : PmmArena) : Nat := a.base / PAGE_SIZE
def pages (a : PmmArena) : Nat := a.size / PAGE_SIZE

/-- `PAGE_BELONGS_TO_ARENA` -/
def Has (a : PmmArena) (p : Nat) : Prop := a.basePfn ≤ p ∧ p < a.basePfn + a.pages

instance (a : PmmArena) (p : Nat) : Decidable (a.Has p) := inferInstanceAs (Decidable (_ ∧ _))

end PmmArena

structure Pmm where
  arenaList : List PmmArena
  nonfree : Nat → Bool
  refused : Nat

/-! ## `pmm_add_arena` -/

/-- the walk that adds an arena in priority order -/
def arenaInsert (arena : PmmArena) : List PmmArena → List PmmArena
  | [] => [arena]
  | a :: as => if a.priority > arena.priority then arena :: a :: as else a :: arenaInsert arena as

def pmmAddArena (s : Pmm) (arena : PmmArena) : Pmm :=
  let arena := { arena with freeList := List.range' arena.basePfn arena.pages }
  { s with arenaList := arenaInsert arena s.arenaList
           nonfree := fun p => if arena.Has p then false else s.nonfree p }

/-! ## `pmm_alloc_pages` -/

/-- the walk over the arenas: what is left of them, and the pages taken -/
def allocWalk : List PmmArena → Nat → List PmmArena × List Nat
  | [], _ => ([], [])
  | a :: as, need =>
    let pgs := a.freeList.take need
    let a' := { a with freeList := a.freeList.drop need }
    if pgs.length < need then (a' :: as, pgs)   -- `goto done`
    else
      let r := allocWalk as (need - pgs.length)
      (a' :: r.1, pgs ++ r.2)

def setNonfree (nonfree : Nat → Bool) (pgs : List Nat) : Nat → Bool := fun p => nonfree p || pgs.contains p

def pmmAllocPages (s : Pmm) (count : Nat) : Pmm × List Nat :=
  if count = 0 then (s, []) else
    let r := allocWalk s.arenaList count
    ({ arenaList := r.1
       nonfree := setNonfree s.nonfree r.2
       refused := if r.2.length < count then s.refused + 1 else s.refused }, r.2)

def pmmAllocPage (s : Pmm) : Pmm × Option Nat :=
  let r := pmmAllocPages s 1
  (r.1, r.2.head?)

/-! ## `pmm_alloc_contiguous` -/

/-- `ROUNDUP` -/
def roundup (a b : Nat) : Nat := (a + b - 1) / b * b

/-- the search loop of one arena from `start` on, `retry` included -/
def searchRun (nonfree : Nat → Bool) (pages count align alignedOffset : Nat) :
    Nat → Nat → Option Nat
  | 0, _ => none
  | fuel + 1, start =>
    if start < pages ∧ start + count ≤ pages then
      match (List.range count).find? fun i => nonfree (start + i) with
      | some i =>
        searchRun nonfree pages count align alignedOffset fuel
          (roundup (start - alignedOffset + i + 1) align + alignedOffset)
      | none => some start
    else none

/-- the first frame of an aligned free run of the arena -/
def PmmArena.findRun (a : PmmArena) (nonfree : Nat → Bool) (count alignmentLog2 : Nat) : Option Nat :=
  let roundedBase := roundup a.base (2 ^ alignmentLog2)
  if roundedBase < a.base ∨ roundedBase > a.base + a.size - 1 then none
  else
    let alignedOffset := (roundedBase - a.base) / PAGE_SIZE
    -- `start` grows with every retry, so the pages of the arena bound the retries
    (searchRun (fun i => nonfree (a.basePfn + i)) a.pages count
      (2 ^ (alignmentLog2 - PAGE_SIZE_SHIFT)) alignedOffset (a.pages + 1) alignedOffset).map
      (a.basePfn + ·)

def contiguousWalk (nonfree : Nat → Bool) (count alignmentLog2 : Nat) :
    List PmmArena → List PmmArena × Option Nat
  | [] => ([], none)
  | a :: as =>
    match if a.kmap then a.findRun nonfree count alignmentLog2 else none with
    | some p =>
      ({ a with freeList := a.freeList.filter fun q => ¬ (p ≤ q ∧ q < p + count) } :: as, some p)
    | none =>
      let r := contiguousWalk nonfree count alignmentLog2 as
      (a :: r.1, r.2)

/-- the result is the first frame of the run; the run itself is the caller's `list` -/
def pmmAllocContiguous (s : Pmm) (count alignmentLog2 : Nat) : Pmm × Option Nat :=
  if count = 0 then (s, none) else
    let r := contiguousWalk s.nonfree count (max alignmentLog2 PAGE_SIZE_SHIFT) s.arenaList
    match r.2 with
    | some p => ({ s with arenaList := r.1
                          nonfree := setNonfree s.nonfree (List.range' p count) }, some p)
    | none => ({ s with refused := s.refused + 1 }, none)

/-! ## `pmm_free` -/

def freeInto (p : Nat) : List PmmArena → List PmmArena
  | [] => []
  | a :: as => if a.Has p then { a with freeList := p :: a.freeList } :: as else a :: freeInto p as

def pmmFree (s : Pmm) : List Nat → Pmm
  | [] => s
  | p :: ps =>
    if ∃ a ∈ s.arenaList, a.Has p then
      pmmFree { s with arenaList := freeInto p s.arenaList
                       nonfree := fun q => if q = p then false else s.nonfree q } ps
    else pmmFree s ps

/-! ## well-formed arena lists -/

/-- an arena without its free list -/
def PmmArena.geom (a : PmmArena) : PmmArena := { a with freeList := [] }

/-- what `pmm_add_arena` asks of an arena, and the range of physical addresses -/
structure PmmArena.Ok (a : PmmArena) : Prop where
  aligned : PAGE_SIZE ∣ a.base
  pos : 0 < a.base
  bound : a.base + a.size ≤ 2 ^ 48

/-- the free lists hold the unflagged pages of the arenas, each once, and the arenas are disjoint -/
structure ArenasWf (nonfree : Nat → Bool) (as : List PmmArena) : Prop where
  mem : ∀ a ∈ as, ∀ p, p ∈ a.freeList ↔ a.Has p ∧ nonfree p = false
  nodup : ∀ a ∈ as, a.freeList.Nodup
  disjoint : as.Pairwise fun a b => ∀ p, a.Has p → ¬ b.Has p

def HasIn (as : List PmmArena) (p : Nat) : Prop := ∃ a ∈ as, a.Has p

theorem PmmArena.geom_has (a : PmmArena) (p : Nat) : a.geom.Has p ↔ a.Has p := Iff.rfl

theorem hasIn_cons {a : PmmArena} {as : List PmmArena} {p : Nat} : HasIn (a :: as) p ↔ a.Has p ∨ HasIn as p := by
  simp [HasIn]

theorem hasIn_of_geom {as bs : List PmmArena}
    (h : as.map PmmArena.geom = bs.map PmmArena.geom) (p : Nat) : HasIn as p ↔ HasIn bs p := by
  have key : ∀ cs : List PmmArena, HasIn cs p ↔ ∃ g ∈ cs.map PmmArena.geom, g.Has p := by
    intro cs
    simp [HasIn, PmmArena.geom_has]
  rw [key, key, h]

theorem ArenasWf.congr {nonfree nonfree' : Nat → Bool} {as : List PmmArena}
    (h : ArenasWf nonfree as) (he : ∀ p, HasIn as p → nonfree' p = nonfree p) : ArenasWf nonfree' as where
  mem a ha p := by
    rw [h.mem a ha]
    constructor <;> rintro ⟨h1, h2⟩ <;> refine ⟨h1, ?_⟩
    · rw [he p ⟨a, ha, h1⟩, h2]
    · rw [← he p ⟨a, ha, h1⟩, h2]
  nodup := h.nodup
  disjoint := h.disjoint

theorem arenasWf_cons {nonfree : Nat → Bool} {a : PmmArena} {as : List PmmArena} :
    ArenasWf nonfree (a :: as) ↔ ((∀ p, p ∈ a.freeList ↔ a.Has p ∧ nonfree p = false) ∧
      a.freeList.Nodup ∧ ∀ p, a.Has p → ¬ HasIn as p) ∧ ArenasWf nonfree as := by
  constructor
  · rintro ⟨h1, h2, h3⟩
    rw [List.pairwise_cons] at h3
    refine ⟨⟨h1 a (by simp), h2 a (by simp), ?_⟩, fun b hb => h1 b (by simp [hb]),
      fun b hb => h2 b (by simp [hb]), h3.2⟩
    rintro p hp ⟨b, hb, hbp⟩
    exact h3.1 b hb p hp hbp
  · rintro ⟨⟨h1, h2, h3⟩, h⟩
    refine ⟨?_, ?_, List.pairwise_cons.mpr ⟨?_, h.disjoint⟩⟩
    · intro b hb
      rcases List.mem_cons.mp hb with rfl | hb
      · exact h1
      · exact h.mem b hb
    · intro b hb
      rcases List.mem_cons.mp hb with rfl | hb
      · exact h2
      · exact h.nodup b hb
    · intro b hb p hp hbp
      exact h3 p hp ⟨b, hb, hbp⟩

@[simp] theorem setNonfree_eq_false {nonfree : Nat → Bool} {pgs : List Nat} {p : Nat} :
    setNonfree nonfree pgs p = false ↔ nonfree p = false ∧ p ∉ pgs := by
  simp [setNonfree]

/-- the arenas `as'` are `as` with the free pages `pgs` taken out -/
structure Took (nonfree : Nat → Bool) (as as' : List PmmArena) (pgs : List Nat) : Prop where
  wf : ArenasWf (setNonfree nonfree pgs) as'
  geom : as'.map PmmArena.geom = as.map PmmArena.geom
  nodup : pgs.Nodup
  free : ∀ p ∈ pgs, HasIn as p ∧ nonfree p = false

theorem Took.none {nonfree : Nat → Bool} {as : List PmmArena} (h : ArenasWf nonfree as) : Took nonfree as as [] :=
  ⟨h.congr fun p _ => by simp [setNonfree], rfl, List.nodup_nil, by simp⟩

/-- pages taken from the first arena and from the later ones -/
theorem Took.cons {nonfree : Nat → Bool} {a : PmmArena} {as as' : List PmmArena}
    {l pgs' : List Nat} (pgs : List Nat) (h : ArenasWf nonfree (a :: as)) (hl : l.Nodup) (hp : pgs.Nodup)
    (hpa : ∀ p ∈ pgs, p ∈ a.freeList) (hm : ∀ p, p ∈ l ↔ p ∈ a.freeList ∧ p ∉ pgs) (ht : Took nonfree as as' pgs') :
    Took nonfree (a :: as) ({ a with freeList := l } :: as') (pgs ++ pgs') := by
  obtain ⟨⟨h1, h2, h3⟩, -⟩ := arenasWf_cons.mp h
  have hin : ∀ p, HasIn as' p ↔ HasIn as p := hasIn_of_geom ht.geom
  refine ⟨arenasWf_cons.mpr ⟨⟨?_, hl, ?_⟩, ?_⟩, ?_, ?_, ?_⟩
  · intro p
    rw [hm, h1, setNonfree_eq_false, List.mem_append]
    constructor
    · rintro ⟨⟨hp1, hp2⟩, hp3⟩
      exact ⟨hp1, hp2, fun hp4 => hp4.elim hp3 fun hp4 => h3 p hp1 (ht.free p hp4).1⟩
    · rintro ⟨hp1, hp2, hp3⟩
      exact ⟨⟨hp1, hp2⟩, fun hp4 => hp3 (.inl hp4)⟩
  · intro p hp1 hp2
    exact h3 p hp1 ((hin p).mp hp2)
  · refine ht.wf.congr fun p hp1 => ?_
    have hp2 : p ∉ pgs := fun hp2 => h3 p ((h1 p).mp (hpa p hp2)).1 ((hin p).mp hp1)
    simp [setNonfree, hp2]
  · rw [List.map_cons, List.map_cons, ht.geom]
    rfl
  · refine List.nodup_append.mpr ⟨hp, ht.nodup, ?_⟩
    rintro p hp1 q hq rfl
    exact h3 p ((h1 p).mp (hpa p hp1)).1 (ht.free p hq).1
  · intro p hp1
    rcases List.mem_append.mp hp1 with hp2 | hp2
    · obtain ⟨h4, h5⟩ := (h1 p).mp (hpa p hp2)
      exact ⟨hasIn_cons.mpr (.inl h4), h5⟩
    · obtain ⟨h4, h5⟩ := ht.free p hp2
      exact ⟨hasIn_cons.mpr (.inr h4), h5⟩

/-! ## the loops -/

theorem allocWalk_took {nonfree : Nat → Bool} : ∀ {as : List PmmArena} {need : Nat},
    ArenasWf nonfree as → Took nonfree as (allocWalk as need).1 (allocWalk as need).2 := by
  intro as
  induction as with
  | nil => intro need h; exact Took.none h
  | cons a as ih =>
    intro need h
    obtain ⟨⟨h1, h2, -⟩, ht⟩ := arenasWf_cons.mp h
    have hd : (a.freeList.drop need).Nodup := h2.sublist (List.drop_sublist _ _)
    have hk : (a.freeList.take need).Nodup := h2.sublist (List.take_sublist _ _)
    have hm : ∀ p, p ∈ a.freeList.drop need ↔ p ∈ a.freeList ∧ p ∉ a.freeList.take need := by
      intro p
      have e := h2
      rw [← List.take_append_drop need a.freeList] at e
      rw [List.nodup_append] at e
      have e' : p ∈ a.freeList ↔ p ∈ a.freeList.take need ∨ p ∈ a.freeList.drop need := by
        rw [← List.mem_append, List.take_append_drop]
      rw [e']
      constructor
      · exact fun hp => ⟨.inr hp, fun hp' => e.2.2 p hp' p hp rfl⟩
      · exact fun hp => hp.1.resolve_left hp.2
    rw [allocWalk]
    split
    · have := Took.cons _ h hd hk (fun p hp => List.mem_of_mem_take hp) hm (Took.none ht)
      rwa [List.append_nil] at this
    · exact Took.cons _ h hd hk (fun p hp => List.mem_of_mem_take hp) hm (ih ht)

theorem dvd_roundup (a b : Nat) : b ∣ roundup a b := ⟨_, Nat.mul_comm _ _⟩

/-- a run the search returns is free, inside the arena and a multiple of `align` away from the offset -/
theorem searchRun_some {nonfree : Nat → Bool} {pages count align off r : Nat} :
    ∀ {fuel start : Nat}, searchRun nonfree pages count align off fuel start = some r →
      off ≤ start → align ∣ start - off →
      r + count ≤ pages ∧ (∀ i < count, nonfree (r + i) = false) ∧ off ≤ r ∧ align ∣ r - off := by
  intro fuel
  induction fuel with
  | zero => intro start h; cases h
  | succ fuel ih =>
    intro start h hoff hal
    rw [searchRun] at h
    split at h
    · rename_i hin
      split at h
      · refine ih h (by omega) ?_
        rw [Nat.add_sub_cancel]
        exact dvd_roundup _ _
      · rename_i hf
        cases h
        rw [List.find?_eq_none] at hf
        refine ⟨hin.2, fun i hi => ?_, hoff, hal⟩
        simpa using hf i (List.mem_range.mpr hi)
    · cases h

/-- a run of `findRun` is free, inside the arena and aligned -/
theorem PmmArena.findRun_some {a : PmmArena} {nonfree : Nat → Bool} {count k p : Nat} (ok : a.Ok)
    (hk : PAGE_SIZE_SHIFT ≤ k) (h : a.findRun nonfree count k = some p) :
    (∀ q, p ≤ q → q < p + count → a.Has q ∧ nonfree q = false) ∧ 2 ^ k ∣ p * PAGE_SIZE := by
  rw [findRun] at h
  split at h
  · cases h
  rename_i hr
  rw [not_or, not_lt, not_lt] at hr
  obtain ⟨start, hs, rfl⟩ := Option.map_eq_some_iff.mp h
  obtain ⟨h1, h2, h3, h4⟩ := searchRun_some hs le_rfl (by simp)
  refine ⟨fun q hq1 hq2 => ⟨?_, ?_⟩, ?_⟩
  · rw [PmmArena.Has]
    omega
  · have := h2 (q - (a.basePfn + start)) (by omega)
    rwa [show a.basePfn + (start + (q - (a.basePfn + start))) = q by omega] at this
  · -- the run starts at the rounded base plus a multiple of the alignment
    have e12 : 2 ^ k = 2 ^ (k - PAGE_SIZE_SHIFT) * PAGE_SIZE := by
      rw [show PAGE_SIZE = 2 ^ PAGE_SIZE_SHIFT from rfl, ← Nat.pow_add, Nat.sub_add_cancel hk]
    have hb : a.basePfn * PAGE_SIZE = a.base := Nat.div_mul_cancel ok.aligned
    have hrb : PAGE_SIZE ∣ roundup a.base (2 ^ k) := Nat.dvd_trans ⟨_, e12.trans (Nat.mul_comm _ _)⟩ (dvd_roundup _ _)
    have ho : (roundup a.base (2 ^ k) - a.base) / PAGE_SIZE * PAGE_SIZE
        = roundup a.base (2 ^ k) - a.base := Nat.div_mul_cancel (Nat.dvd_sub hrb ok.aligned)
    obtain ⟨c, hc⟩ := h4
    have e : (a.basePfn + start) * PAGE_SIZE
        = roundup a.base (2 ^ k) + 2 ^ k * c := by
      have : start = (roundup a.base (2 ^ k) - a.base) / PAGE_SIZE
          + 2 ^ (k - PAGE_SIZE_SHIFT) * c := by omega
      rw [this, Nat.add_mul, Nat.add_mul, hb, ho, e12, Nat.mul_right_comm]
      have := hr.1
      rw [e12] at this
      omega
    rw [e]
    exact (Nat.dvd_add_right (dvd_roundup _ _)).mpr (Nat.dvd_mul_right _ _)

theorem contiguousWalk_took {nonfree : Nat → Bool} {count k : Nat} (hk : PAGE_SIZE_SHIFT ≤ k) :
    ∀ {as : List PmmArena} {p : Nat}, ArenasWf nonfree as → (∀ a ∈ as, a.Ok) →
      (contiguousWalk nonfree count k as).2 = some p →
      Took nonfree as (contiguousWalk nonfree count k as).1 (List.range' p count) ∧ 2 ^ k ∣ p * PAGE_SIZE := by
  intro as
  induction as with
  | nil => intro p _ _ h; cases h
  | cons a as ih =>
    intro p h ok hp
    obtain ⟨⟨h1, h2, -⟩, ht⟩ := arenasWf_cons.mp h
    rw [contiguousWalk] at hp ⊢
    split at hp
    · rename_i q hq
      cases hp
      split at hq
      · obtain ⟨hrun, hal⟩ := PmmArena.findRun_some (ok a (by simp)) hk hq
        refine ⟨?_, hal⟩
        have := Took.cons (l := a.freeList.filter fun q => ¬ (p ≤ q ∧ q < p + count))
          (List.range' p count) h (h2.filter _) List.nodup_range' ?_ ?_ (Took.none ht)
        · rwa [List.append_nil] at this
        · intro q hq
          rw [List.mem_range'_1] at hq
          exact (h1 q).mpr (hrun q hq.1 hq.2)
        · intro q
          rw [List.mem_filter, List.mem_range'_1, decide_eq_true_eq]
      · cases hq
    · obtain ⟨h3, h4⟩ := ih ht (fun b hb => ok b (by simp [hb])) hp
      exact ⟨Took.cons [] h h2 List.nodup_nil (by simp) (by simp) h3, h4⟩

/-! ## the allocator -/

namespace Pmm

structure Wf (s : Pmm) : Prop where
  arenas : ArenasWf s.nonfree s.arenaList
  ok : ∀ a ∈ s.arenaList, a.Ok

/-- the frame belongs to an arena -/
def Ram (s : Pmm) (p : Nat) : Prop := HasIn s.arenaList p

/-- the frame is on a free list -/
def Free (s : Pmm) (p : Nat) : Prop := ∃ a ∈ s.arenaList, p ∈ a.freeList

theorem Wf.free_iff {s : Pmm} (h : s.Wf) (p : Nat) : s.Free p ↔ s.Ram p ∧ s.nonfree p = false := by
  constructor
  · rintro ⟨a, ha, hp⟩
    obtain ⟨h1, h2⟩ := (h.arenas.mem a ha p).mp hp
    exact ⟨⟨a, ha, h1⟩, h2⟩
  · rintro ⟨⟨a, ha, h1⟩, h2⟩
    exact ⟨a, ha, (h.arenas.mem a ha p).mpr ⟨h1, h2⟩⟩

theorem ok_of_geom {as bs : List PmmArena} (h : as.map PmmArena.geom = bs.map PmmArena.geom)
    (hb : ∀ b ∈ bs, b.Ok) : ∀ a ∈ as, a.Ok := by
  intro a ha
  have : a.geom ∈ bs.map PmmArena.geom := h ▸ List.mem_map_of_mem ha
  obtain ⟨b, hbm, e⟩ := List.mem_map.mp this
  have eb : b.geom.base = a.geom.base := by rw [e]
  have es : b.geom.size = a.geom.size := by rw [e]
  obtain ⟨h1, h2, h3⟩ := hb b hbm
  simp only [PmmArena.geom] at eb es
  exact ⟨eb ▸ h1, eb ▸ h2, eb ▸ es ▸ h3⟩

/-- frames of memory fit the output address of a descriptor -/
theorem Wf.ram_lt {s : Pmm} (h : s.Wf) {p : Nat} (hp : s.Ram p) : 0 < p ∧ p < 2 ^ 36 := by
  obtain ⟨a, ha, h1, h2⟩ := hp
  obtain ⟨⟨c, hc⟩, hpos, hb⟩ := h.ok a ha
  rw [PmmArena.basePfn] at h1 h2
  rw [PmmArena.pages] at h2
  simp only [PAGE_SIZE] at hc h1 h2
  omega

/-- `s'` is `s` with the free pages `pgs` taken out -/
structure Takes (s s' : Pmm) (pgs : List Nat) : Prop where
  wf : s'.Wf
  ram : ∀ p, s'.Ram p ↔ s.Ram p
  nonfree : ∀ p, s'.nonfree p = setNonfree s.nonfree pgs p
  nodup : pgs.Nodup
  free : ∀ p ∈ pgs, s.Ram p ∧ s.nonfree p = false

theorem Wf.takes {s s' : Pmm} {pgs : List Nat} (h : s.Wf) (ht : Took s.nonfree s.arenaList s'.arenaList pgs)
    (hn : s'.nonfree = setNonfree s.nonfree pgs) : s.Takes s' pgs where
  wf := ⟨by rw [hn]; exact ht.wf, ok_of_geom ht.geom h.ok⟩
  ram p := hasIn_of_geom ht.geom p
  nonfree p := by rw [hn]
  nodup := ht.nodup
  free := ht.free

theorem Takes.trans {s s' s'' : Pmm} {pgs pgs' : List Nat} (h : s.Takes s' pgs)
    (h' : s'.Takes s'' pgs') : s.Takes s'' (pgs ++ pgs') where
  wf := h'.wf
  ram p := (h'.ram p).trans (h.ram p)
  nonfree p := by
    rw [h'.nonfree, setNonfree, h.nonfree, setNonfree, setNonfree, Bool.or_assoc]
    simp
  nodup := by
    refine List.nodup_append.mpr ⟨h.nodup, h'.nodup, fun p hp q hq e => ?_⟩
    have := (h'.free q hq).2
    rw [h.nonfree, setNonfree, ← e] at this
    simp [hp] at this
  free p hp := by
    rcases List.mem_append.mp hp with hp | hp
    · exact h.free p hp
    · obtain ⟨h1, h2⟩ := h'.free p hp
      rw [h.nonfree, setNonfree, Bool.or_eq_false_iff] at h2
      exact ⟨(h.ram p).mp h1, h2.1⟩

theorem Wf.refl_takes {s : Pmm} (h : s.Wf) (n : Nat) : s.Takes { s with refused := n } [] :=
  h.takes (Took.none h.arenas) (by funext p; simp [setNonfree])

theorem Wf.allocPages {s : Pmm} (h : s.Wf) (count : Nat) :
    s.Takes (pmmAllocPages s count).1 (pmmAllocPages s count).2 := by
  rw [pmmAllocPages]
  split
  · exact h.refl_takes s.refused
  · exact h.takes (allocWalk_took h.arenas) rfl

theorem allocWalk_length : ∀ (as : List PmmArena) (need : Nat), (allocWalk as need).2.length ≤ need := by
  intro as
  induction as with
  | nil => intro need; exact Nat.zero_le _
  | cons a as ih =>
    intro need
    have hk := List.length_take_le need a.freeList
    rw [allocWalk]
    split
    · exact hk
    · have := ih (need - (a.freeList.take need).length)
      rw [List.length_append]
      omega

/-- a page, or a refused request and nothing else -/
theorem Wf.allocPage {s : Pmm} (h : s.Wf) : (∃ p, (pmmAllocPage s).2 = some p ∧ s.Takes (pmmAllocPage s).1 [p] ∧
      (pmmAllocPage s).1.refused = s.refused) ∨ ((pmmAllocPage s).2 = none ∧ s.Takes (pmmAllocPage s).1 [] ∧
      (pmmAllocPage s).1.refused = s.refused + 1) := by
  have ht := h.allocPages 1
  have hl : (pmmAllocPages s 1).2.length ≤ 1 := by
    rw [pmmAllocPages, if_neg Nat.one_ne_zero]
    exact allocWalk_length _ _
  have hr : (pmmAllocPages s 1).1.refused
      = if (pmmAllocPages s 1).2.length < 1 then s.refused + 1 else s.refused := rfl
  rw [pmmAllocPage]
  cases e : (pmmAllocPages s 1).2 with
  | nil =>
    right
    rw [e] at ht hr
    exact ⟨rfl, ht, hr⟩
  | cons p l =>
    left
    rw [e] at hl ht hr
    obtain rfl : l = [] := List.length_eq_zero_iff.mp (by rw [List.length_cons] at hl; omega)
    exact ⟨p, rfl, ht, hr⟩

/-- an aligned run, or a refused request and nothing else -/
theorem Wf.allocContiguous {s : Pmm} (h : s.Wf) (count k : Nat) (hc : count ≠ 0) :
    (∃ p, (pmmAllocContiguous s count k).2 = some p ∧ s.Takes (pmmAllocContiguous s count k).1 (List.range' p count) ∧
      (pmmAllocContiguous s count k).1.refused = s.refused ∧ 2 ^ k ∣ p * PAGE_SIZE) ∨
    ((pmmAllocContiguous s count k).2 = none ∧ s.Takes (pmmAllocContiguous s count k).1 [] ∧
      (pmmAllocContiguous s count k).1.refused = s.refused + 1) := by
  rw [pmmAllocContiguous, if_neg hc]
  cases e : (contiguousWalk s.nonfree count (max k PAGE_SIZE_SHIFT) s.arenaList).2 with
  | none =>
    simp only [e]
    exact .inr ⟨trivial, h.refl_takes _, trivial⟩
  | some p =>
    simp only [e]
    obtain ⟨ht, hal⟩ := contiguousWalk_took (le_max_right k PAGE_SIZE_SHIFT) h.arenas h.ok e
    exact .inl ⟨p, rfl, h.takes ht rfl, trivial,
      Nat.dvd_trans (Nat.pow_dvd_pow 2 (le_max_left k PAGE_SIZE_SHIFT)) hal⟩

end Pmm

/-! ## giving pages back -/

/-- a request that was refused is refused again -/
theorem pmmAllocContiguous_again {s : Pmm} {count k : Nat} (h : (pmmAllocContiguous s count k).2 = none) :
    (pmmAllocContiguous (pmmAllocContiguous s count k).1 count k).2 = none := by
  rw [pmmAllocContiguous] at h
  by_cases hc : count = 0
  · rw [pmmAllocContiguous, if_pos hc]
  · rw [if_neg hc] at h
    rw [pmmAllocContiguous, if_neg hc, pmmAllocContiguous, if_neg hc]
    cases hr : (contiguousWalk s.nonfree count (max k PAGE_SIZE_SHIFT) s.arenaList).2 with
    | none => simp only [hr]
    | some p =>
      simp only [hr] at h
      cases h

theorem freeInto_geom (p : Nat) (as : List PmmArena) : (freeInto p as).map PmmArena.geom = as.map PmmArena.geom := by
  induction as with
  | nil => rfl
  | cons a as ih =>
    rw [freeInto]
    split
    · rfl
    · rw [List.map_cons, List.map_cons, ih]

theorem freeInto_wf {nonfree nonfree' : Nat → Bool} {p : Nat} (hp : nonfree p = true)
    (hp' : nonfree' p = false) (he : ∀ q, q ≠ p → nonfree' q = nonfree q) :
    ∀ {as : List PmmArena}, HasIn as p → ArenasWf nonfree as → ArenasWf nonfree' (freeInto p as) := by
  intro as
  induction as with
  | nil => rintro ⟨a, ha, -⟩; cases ha
  | cons a as ih =>
    intro hin h
    obtain ⟨⟨h1, h2, h3⟩, ht⟩ := arenasWf_cons.mp h
    rw [freeInto]
    split
    · rename_i hap
      have hpa : p ∉ a.freeList := fun hpa => by rw [((h1 p).mp hpa).2] at hp; cases hp
      refine arenasWf_cons.mpr ⟨⟨fun q => ?_, List.nodup_cons.mpr ⟨hpa, h2⟩, h3⟩, ht.congr ?_⟩
      · rw [List.mem_cons, h1]
        by_cases e : q = p
        · rw [e, hp']
          exact ⟨fun _ => ⟨hap, rfl⟩, fun _ => .inl rfl⟩
        · rw [he q e]
          exact ⟨fun hq => hq.resolve_left e, .inr⟩
      · intro q hq
        exact he q fun e => h3 p hap (e ▸ hq)
    · rename_i hap
      have hin' := (hasIn_cons.mp hin).resolve_left hap
      refine arenasWf_cons.mpr ⟨⟨fun q => ?_, h2, fun q hq hq' => ?_⟩, ih hin' ht⟩
      · rw [h1]
        by_cases e : q = p
        · rw [e]
          exact ⟨fun hq => absurd hq.1 hap, fun hq => absurd hq.1 hap⟩
        · rw [he q e]
      · exact h3 q hq ((hasIn_of_geom (freeInto_geom p as) q).mp hq')

namespace Pmm

/-- `s'` is `s` with the pages `pgs` back on the free lists -/
structure Gives (s s' : Pmm) (pgs : List Nat) : Prop where
  wf : s'.Wf
  ram : ∀ p, s'.Ram p ↔ s.Ram p
  nonfree : ∀ p, s'.nonfree p = (s.nonfree p && ! pgs.contains p)
  refused : s'.refused = s.refused

theorem Gives.trans {s s' s'' : Pmm} {pgs pgs' : List Nat} (h : s.Gives s' pgs)
    (h' : s'.Gives s'' pgs') : s.Gives s'' (pgs ++ pgs') where
  wf := h'.wf
  ram p := (h'.ram p).trans (h.ram p)
  nonfree p := by
    rw [h'.nonfree, h.nonfree, Bool.and_assoc]
    simp
  refused := h'.refused.trans h.refused

theorem Wf.free {s : Pmm} (h : s.Wf) {pgs : List Nat} (hd : pgs.Nodup)
    (hp : ∀ p ∈ pgs, s.Ram p ∧ s.nonfree p = true) : s.Gives (pmmFree s pgs) pgs := by
  induction pgs generalizing s with
  | nil => exact ⟨h, fun _ => Iff.rfl, fun p => by simp [pmmFree], rfl⟩
  | cons p ps ih =>
    obtain ⟨hps, hd'⟩ := List.nodup_cons.mp hd
    obtain ⟨hr, hn⟩ := hp p (by simp)
    rw [pmmFree, if_pos (show ∃ a ∈ s.arenaList, a.Has p from hr)]
    have hg := freeInto_geom p s.arenaList
    have hw : Wf { s with arenaList := freeInto p s.arenaList
                          nonfree := fun q => if q = p then false else s.nonfree q } :=
      ⟨freeInto_wf hn (by simp) (fun q e => by simp [e]) hr h.arenas, ok_of_geom hg h.ok⟩
    have hi := ih hw hd' fun q hq => by
      have e : q ≠ p := fun e => hps (e ▸ hq)
      obtain ⟨h1, h2⟩ := hp q (by simp [hq])
      exact ⟨(hasIn_of_geom hg q).mpr h1, by simp [e, h2]⟩
    refine ⟨hi.wf, fun q => (hi.ram q).trans (hasIn_of_geom hg q), fun q => ?_, hi.refused⟩
    rw [hi.nonfree q]
    by_cases e : q = p
    · simp [e]
    · simp [e]

/-! ## `pmm_add_arena` -/

theorem mem_arenaInsert {a b : PmmArena} {as : List PmmArena} : b ∈ arenaInsert a as ↔ b = a ∨ b ∈ as := by
  induction as with
  | nil => simp [arenaInsert]
  | cons c as ih =>
    rw [arenaInsert]
    split
    · rw [List.mem_cons]
    · rw [List.mem_cons, List.mem_cons, ih]
      tauto

theorem pairwise_arenaInsert {a : PmmArena} {as : List PmmArena}
    (h : as.Pairwise fun b c => ∀ p, b.Has p → ¬ c.Has p) (ha : ∀ b ∈ as, ∀ p, b.Has p → ¬ a.Has p) :
    (arenaInsert a as).Pairwise fun b c => ∀ p, b.Has p → ¬ c.Has p := by
  induction as with
  | nil => exact List.pairwise_singleton _ _
  | cons c as ih =>
    obtain ⟨h1, h2⟩ := List.pairwise_cons.mp h
    rw [arenaInsert]
    split
    · exact List.pairwise_cons.mpr ⟨fun b hb p hp hb' => ha b hb p hb' hp, h⟩
    · refine List.pairwise_cons.mpr ⟨fun b hb => ?_, ih h2 fun b hb => ha b (List.mem_cons_of_mem _ hb)⟩
      rcases mem_arenaInsert.mp hb with rfl | hb
      · exact ha c (by simp)
      · exact h1 b hb

/-- an arena disjoint from those already there -/
theorem Wf.addArena {s : Pmm} (h : s.Wf) {a : PmmArena} (ok : a.Ok)
    (hd : ∀ b ∈ s.arenaList, ∀ p, b.Has p → ¬ a.Has p) : (pmmAddArena s a).Wf := by
  have hgeom : ∀ l p, PmmArena.Has { a with freeList := l } p ↔ a.Has p := fun l p => Iff.rfl
  refine ⟨⟨fun b hb p => ?_, fun b hb => ?_, pairwise_arenaInsert h.arenas.disjoint hd⟩, fun b hb => ?_⟩
  · rcases mem_arenaInsert.mp hb with rfl | hb
    · simp only [pmmAddArena, hgeom, List.mem_range'_1]
      show a.Has p ↔ _
      by_cases hp : a.Has p <;> simp [hp]
    · have hp : b.Has p → ¬ a.Has p := hd b hb p
      simp only [pmmAddArena]
      rw [h.arenas.mem b hb p]
      refine and_congr_right fun hbp => ?_
      rw [if_neg fun hx => hp hbp ((hgeom _ p).mp hx)]
  · rcases mem_arenaInsert.mp hb with rfl | hb
    · exact List.nodup_range'
    · exact h.arenas.nodup b hb
  · rcases mem_arenaInsert.mp hb with rfl | hb
    · exact ⟨ok.aligned, ok.pos, ok.bound⟩
    · exact h.ok b hb

end Pmm

/-- no arena yet -/
def Pmm.empty : Pmm := ⟨[], fun _ => false, 0⟩

theorem Pmm.empty_wf : Pmm.empty.Wf := ⟨⟨by simp [empty], by simp [empty], List.Pairwise.nil⟩, by simp [empty]⟩

end LkHv
