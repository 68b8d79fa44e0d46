import LkHv.Lib.Links
import LkHv.Lib.Machine
import LkHv.Kernel.Pmm
import LkHv.Kernel.Word

/-!
# The page structures of the page allocator (`kernel/vm/pmm.c`)

The allocator below its frame numbers: `vm_page_t` structures in the page arrays of the arenas, each with
one list node, the lists of the arenas and of the callers, the `VM_PAGE_FLAG_NONFREE` bit and the counters.
`uint` and `size_t` arithmetic wraps as in C, and what `pmm_alloc_contiguous` reads past the end of a
page array (when `start + count` wraps) is whatever stands there.

* `pmmAddArena`, `pmmAllocPages`, `pmmAllocPage`, `pmmAllocRange`, `pmmAllocContiguous`, `pmmFree`   the
  source's;
* `pmmSys`          the allocator under any sequence of calls, with what callers do to their lists;
* `Conserved`       flag, free list and counter agree, and no page is on two callers' lists;
* `PagesInv`        the invariant, with `take` and `give` for the two ways a page moves;
* `pages_conserved`   it holds in every reachable state.
-/

namespace LkHv
namespace PageList

/-- `vm_page_t *`: an entry of the page array of an arena -/
structure VmPage where
  arena : Nat
  index : Nat
deriving DecidableEq

/-- a `struct list_node` that heads a list of pages -/
inductive ListHead
  | freeList (a : Nat)
  /-- a list of a caller -/
  | caller (n : Nat)
  /-- the list on the stack of `pmm_alloc_page` and `pmm_free_page` -/
  | stack
deriving DecidableEq

/-- `pmm_arena_t`, less what changes -/
structure Arena where
  base : Nat
  size : Nat
  priority : Nat
  /-- `PMM_ARENA_FLAG_KMAP` -/
  kmap : Bool

def Arena.pages (a : Arena) : Nat := a.size / PAGE_SIZE

/-- the assertions of `pmm_add_arena`, and the ranges of `paddr_t` and `size_t` -/
structure Arena.Ok (a : Arena) : Prop where
  base : PAGE_SIZE ∣ a.base
  size : PAGE_SIZE ∣ a.size
  pos : 0 < a.size
  baseLt : a.base < 2 ^ 64
  sizeLt : a.size < 2 ^ 64

/-- the last address of the arena, as the source computes it -/
def Arena.last (a : Arena) : Nat := (a.base + a.size + (2 ^ 64 - 1)) % 2 ^ 64

/-- `ADDRESS_IN_ARENA` -/
def Arena.HasAddress (a : Arena) (address : Nat) : Prop := a.base ≤ address ∧ address ≤ a.last

instance (a : Arena) (address : Nat) : Decidable (a.HasAddress address) := inferInstanceAs (Decidable (_ ∧ _))

structure State where
  /-- `arena_list`, in priority order -/
  arenaList : List Nat
  arena : Nat → Arena
  freeCount : Nat → Int
  /-- `VM_PAGE_FLAG_NONFREE` -/
  nonfree : VmPage → Bool
  list : ListHead → List VmPage

/-- `PAGE_BELONGS_TO_ARENA` -/
def State.Belongs (s : State) (page : VmPage) (a : Nat) : Prop := page.arena = a ∧ page.index < (s.arena a).pages

instance (s : State) (page : VmPage) (a : Nat) : Decidable (s.Belongs page a) := inferInstanceAs (Decidable (_ ∧ _))

/-! ## list nodes -/

/-- `list_delete`: the node leaves the list it is linked in -/
def State.listDelete (s : State) (page : VmPage) : State := { s with list := Links.unlink s.list page }

def State.setList (s : State) (l : ListHead) (ps : List VmPage) : State :=
  { s with list := Function.update s.list l ps }

def State.listAddTail (s : State) (l : ListHead) (page : VmPage) : State := s.setList l (s.list l ++ [page])

def State.listAddHead (s : State) (l : ListHead) (page : VmPage) : State := s.setList l (page :: s.list l)

def State.listRemoveHead (s : State) (l : ListHead) : State × Option VmPage :=
  match s.list l with
  | [] => (s, none)
  | page :: ps => (s.setList l ps, some page)

/-- an unlinked page of arena `a` given out: the flag, the counter, and the list it goes to (`NULL` for
none) -/
def State.handOut (s : State) (a : Nat) (l : Option ListHead) (page : VmPage) : State :=
  let s := { s with nonfree := Function.update s.nonfree page true
                    freeCount := Function.update s.freeCount a (s.freeCount a - 1) }
  match l with
  | some l => s.listAddTail l page
  | none => s

/-! ## `pmm_add_arena` -/

/-- the walk that adds an arena in priority order -/
def arenaInsert (s : State) (id priority : Nat) : List Nat → List Nat
  | [] => [id]
  | a :: as =>
    if (s.arena a).priority > priority then id :: a :: as else a :: arenaInsert s id priority as

/-- the loop that adds the pages to the free list -/
def addPage (a : Nat) (s : State) (i : Nat) : State :=
  let s := s.listAddTail (.freeList a) ⟨a, i⟩
  { s with freeCount := Function.update s.freeCount a (s.freeCount a + 1) }

/-- `id` is the arena structure, `arena` what the caller put in it -/
def pmmAddArena (s : State) (id : Nat) (arena : Arena) : State :=
  let s : State :=
    { arenaList := arenaInsert s id arena.priority s.arenaList
      arena := Function.update s.arena id arena
      freeCount := Function.update s.freeCount id 0
      nonfree := fun page => if page.arena = id then false else s.nonfree page
      list := Function.update s.list (.freeList id) [] }
  (List.range arena.pages).foldl (addPage id) s

/-! ## `pmm_alloc_pages` -/

/-- the `while` loop over one arena: the state, and how many of the pages needed it gave -/
def allocFrom (l : ListHead) (a : Nat) : Nat → State → State × Nat
  | 0, s => (s, 0)
  | need + 1, s =>
    match s.listRemoveHead (.freeList a) with
    | (s, none) => (s, 0)
    | (s, some page) =>
      let r := allocFrom l a need (s.handOut a (some l) page)
      (r.1, r.2 + 1)

def allocWalk (l : ListHead) : List Nat → Nat → State → State × Nat
  | [], _, s => (s, 0)
  | a :: as, need, s =>
    let r := allocFrom l a need s
    if r.2 < need then r   -- `goto done`
    else
      let r' := allocWalk l as (need - r.2) r.1
      (r'.1, r.2 + r'.2)

def pmmAllocPages (s : State) (count : Nat) (l : ListHead) : State × Nat :=
  if count = 0 then (s, 0) else allocWalk l s.arenaList count s

/-- the list is on the stack: its nodes are out of use when the call returns -/
def pmmAllocPage (s : State) : State × Option VmPage :=
  let r := pmmAllocPages (s.setList .stack []) 1 .stack
  (r.1.setList .stack [], if r.2 = 0 then none else (r.1.list .stack).head?)

/-! ## `pmm_alloc_range` -/

/-- the `while` loop over one arena: the state, the pages given, and the address it got to -/
def rangeFrom (l : ListHead) (a : Nat) : Nat → Nat → State → State × Nat × Nat
  | 0, address, s => (s, 0, address)
  | need + 1, address, s =>
    if (s.arena a).HasAddress address then
      let page : VmPage := ⟨a, (address - (s.arena a).base) / PAGE_SIZE⟩
      if s.nonfree page then (s, 0, address)
      else
        let r := rangeFrom l a need ((address + PAGE_SIZE) % 2 ^ 64)
          ((s.listDelete page).handOut a (some l) page)
        (r.1, r.2.1 + 1, r.2.2)
    else (s, 0, address)

def rangeWalk (l : ListHead) : List Nat → Nat → Nat → State → State × Nat
  | [], _, _, s => (s, 0)
  | a :: as, need, address, s =>
    let r := rangeFrom l a need address s
    if r.2.1 = need then (r.1, r.2.1)
    else
      let r' := rangeWalk l as (need - r.2.1) r.2.2 r.1
      (r'.1, r.2.1 + r'.2)

def pmmAllocRange (s : State) (address count : Nat) (l : ListHead) : State × Nat :=
  if count = 0 then (s, 0) else rangeWalk l s.arenaList count (rounddown address PAGE_SIZE) s

/-! ## `pmm_alloc_contiguous` -/

/-- the search loop of one arena from `start` on, `retry` included: `none` while it still runs -/
def searchRun (flag : Nat → Bool) (pages count align alignedOffset : Nat) :
    Nat → Nat → Option (Option Nat)
  | 0, _ => none
  | fuel + 1, start =>
    if start < pages ∧ (start + count) % 2 ^ 32 ≤ pages then
      match (List.range count).find? fun i => flag (start + i) with
      | some i =>
        searchRun flag pages count align alignedOffset fuel
          ((roundup64 ((start + 2 ^ 32 - alignedOffset + i + 1) % 2 ^ 32) align + alignedOffset) % 2 ^ 32)
      | none => some (some start)
    else some none

/-- `p->flags` in the search: past the end of the page array it is what stands there -/
def State.flagAt (s : State) (past : VmPage → Bool) (a i : Nat) : Bool :=
  if i < (s.arena a).pages then s.nonfree ⟨a, i⟩ else past ⟨a, i⟩

def State.findRun (s : State) (past : VmPage → Bool) (fuel count alignmentLog2 a : Nat) : Option (Option Nat) :=
  let ar := s.arena a
  if ar.kmap then
    let roundedBase := roundup64 ar.base (shl1 alignmentLog2)
    if roundedBase < ar.base ∨ roundedBase > ar.last then some none
    else
      let alignedOffset := (roundedBase - ar.base) / PAGE_SIZE % 2 ^ 32
      searchRun (s.flagAt past a) ar.pages count (shl1 (alignmentLog2 - PAGE_SIZE_SHIFT)) alignedOffset
        fuel alignedOffset
  else some none

/-- the first arena with a run, and where it starts -/
def contiguousWalk (s : State) (past : VmPage → Bool) (fuel count alignmentLog2 : Nat) :
    List Nat → Option (Option (Nat × Nat))
  | [] => some none
  | a :: as =>
    match s.findRun past fuel count alignmentLog2 a with
    | none => none
    | some (some start) => some (some (a, start))
    | some none => contiguousWalk s past fuel count alignmentLog2 as

/-- one round of the loop that takes the run out of the free list -/
def takePage (l : Option ListHead) (a : Nat) (s : State) (i : Nat) : State := (s.listDelete ⟨a, i⟩).handOut a l ⟨a, i⟩

/-- the state, the number of pages and `*pa`; `none` if the search does not end within `fuel` rounds -/
def pmmAllocContiguous (fuel : Nat) (past : VmPage → Bool) (s : State) (count alignmentLog2 : Nat)
    (l : Option ListHead) : Option (State × Nat × Option Nat) :=
  if count = 0 then some (s, 0, none)
  else
    match contiguousWalk s past fuel count (max alignmentLog2 PAGE_SIZE_SHIFT) s.arenaList with
    | none => none
    | some none => some (s, 0, none)
    | some (some (a, start)) =>
      -- `for (uint i = start; i < start + count; i++)`
      some ((List.range' start ((start + count) % 2 ^ 32 - start)).foldl (takePage l a) s, count,
        some (((s.arena a).base + start * PAGE_SIZE) % 2 ^ 64))

/-! ## `pmm_free` -/

/-- a page put back by the loop of `pmm_free` -/
def State.putBack (s : State) (a : Nat) (page : VmPage) : State :=
  let s := { s with nonfree := Function.update s.nonfree page false
                    freeCount := Function.update s.freeCount a (s.freeCount a + 1) }
  s.listAddHead (.freeList a) page

/-- the loop, for the pages on the list -/
def freeLoop (l : ListHead) : Nat → State → State × Nat
  | 0, s => (s, 0)
  | n + 1, s =>
    match s.listRemoveHead l with
    | (s, none) => (s, 0)
    | (s, some page) =>
      match s.arenaList.find? fun a => s.Belongs page a with
      | some a =>
        let r := freeLoop l n (s.putBack a page)
        (r.1, r.2 + 1)
      | none => freeLoop l n s

def pmmFree (s : State) (l : ListHead) : State × Nat := freeLoop l (s.list l).length s

def pmmFreePage (s : State) (page : VmPage) : State × Nat :=
  pmmFree ((s.setList .stack []).listAddHead .stack page) .stack

/-! ## any sequence of calls -/

inductive PmmOp
  | addArena (id : Nat) (arena : Arena)
  | allocPages (count n : Nat)
  | allocPage
  | allocRange (address count n : Nat)
  | allocContiguous (count alignmentLog2 : Nat) (n : Option Nat)
  | free (n : Nat)
  | freePage (page : VmPage)
  /-- a caller takes a page off its list -/
  | unlink (n : Nat) (page : VmPage)
  /-- a caller links a page it was given -/
  | link (n : Nat) (page : VmPage)

/-- a page that was handed out and is linked nowhere -/
def State.InHand (s : State) (page : VmPage) : Prop :=
  (∃ a ∈ s.arenaList, s.Belongs page a) ∧ s.nonfree page = true ∧ ∀ l, page ∉ s.list l

/-- The steps.  An arena structure is added once, with what `pmm_add_arena` asserts; callers free and link
pages that they were handed. -/
def pmmStep (s : State) : PmmOp → State → Prop
  | .addArena id arena, s' => id ∉ s.arenaList ∧ arena.Ok ∧ s' = pmmAddArena s id arena
  | .allocPages count n, s' => s' = (pmmAllocPages s count (.caller n)).1
  | .allocPage, s' => s' = (pmmAllocPage s).1
  | .allocRange address count n, s' => s' = (pmmAllocRange s address count (.caller n)).1
  | .allocContiguous count alignmentLog2 n, s' => ∃ fuel past r,
      pmmAllocContiguous fuel past s count alignmentLog2 (n.map .caller) = some (s', r)
  | .free n, s' => s' = (pmmFree s (.caller n)).1
  | .freePage page, s' => s.InHand page ∧ s' = (pmmFreePage s page).1
  | .unlink n page, s' => page ∈ s.list (.caller n) ∧ s' = s.listDelete page
  | .link n page, s' => s.InHand page ∧ s' = s.listAddTail (.caller n) page

/-- no arena, no page on a list -/
structure Boot (s : State) : Prop where
  arenaList : s.arenaList = []
  list : ∀ l, s.list l = []

def pmmSys : Machine State PmmOp where
  init := Boot
  step := pmmStep

/-- the flag says which pages are on the free list, once; the counter is its length; no page is on two
callers' lists -/
structure Conserved (s : State) : Prop where
  flag : ∀ a ∈ s.arenaList, ∀ i < (s.arena a).pages,
    s.nonfree ⟨a, i⟩ = false ↔ (s.list (.freeList a)).count ⟨a, i⟩ = 1
  own : ∀ a ∈ s.arenaList, (s.list (.freeList a)).Nodup ∧ ∀ p ∈ s.list (.freeList a), s.Belongs p a
  count : ∀ a ∈ s.arenaList, s.freeCount a = (s.list (.freeList a)).length
  callers : ∀ m n p, p ∈ s.list (.caller m) → p ∈ s.list (.caller n) → m = n
  once : ∀ n p, p ∈ s.list (.caller n) →
    (s.list (.caller n)).count p = 1 ∧ ∀ a ∈ s.arenaList, p ∉ s.list (.freeList a)

/-! ## the invariant -/

structure PagesInv (s : State) : Prop where
  sizes : ∀ a ∈ s.arenaList, (s.arena a).Ok
  apart : Links.Apart s.list
  free : ∀ a ∈ s.arenaList, ∀ p, p ∈ s.list (.freeList a) ↔ s.Belongs p a ∧ s.nonfree p = false
  unused : ∀ a, a ∉ s.arenaList → s.list (.freeList a) = []
  count : ∀ a ∈ s.arenaList, s.freeCount a = (s.list (.freeList a)).length
  out : ∀ l, (∀ a, l ≠ .freeList a) → ∀ p ∈ s.list l, (∃ a ∈ s.arenaList, s.Belongs p a) ∧ s.nonfree p = true

theorem PagesInv.conserved {s : State} (h : PagesInv s) : Conserved s where
  flag a ha i hi := by
    have hfree := h.free a ha ⟨a, i⟩
    constructor
    · intro hf
      exact List.count_eq_one_of_mem (h.apart.nodup _) (hfree.mpr ⟨⟨rfl, hi⟩, hf⟩)
    · intro hc
      apply (hfree.mp _).2
      rw [← List.one_le_count_iff, hc]
  own a ha := ⟨h.apart.nodup _, fun p hp => ((h.free a ha p).mp hp).1⟩
  count := h.count
  callers m n p hm hn := by
    have := h.apart.once hm hn
    cases this
    rfl
  once n p hp := by
    refine ⟨List.count_eq_one_of_mem (h.apart.nodup _) hp, fun a _ ha => ?_⟩
    have := h.apart.once hp ha
    cases this

/-- the state after some pages moved: the invariant, and the same arenas -/
structure Kept (s s' : State) : Prop where
  inv : PagesInv s'
  arenaList : s'.arenaList = s.arenaList
  arena : s'.arena = s.arena

section
variable {s s' s'' : State} {a : Nat} {p : VmPage} {l : ListHead}

theorem Kept.refl (h : PagesInv s) : Kept s s := ⟨h, rfl, rfl⟩

theorem Kept.trans (h : Kept s s') (h' : Kept s' s'') : Kept s s'' :=
  ⟨h'.inv, h'.arenaList.trans h.arenaList, h'.arena.trans h.arena⟩

theorem Kept.mem (h : Kept s s') (ha : a ∈ s.arenaList) : a ∈ s'.arenaList := by
  rwa [h.arenaList]

/-- a list that no arena owns -/
def ListHead.Outer (l : ListHead) : Prop := ∀ a, l ≠ .freeList a

theorem outer_caller (n : Nat) : (ListHead.caller n).Outer := fun _ e => by cases e
theorem outer_stack : ListHead.stack.Outer := fun _ e => by cases e

/-! ## what a page move does to the lists -/

@[simp] theorem handOut_arenaList (l : Option ListHead) : (s.handOut a l p).arenaList = s.arenaList := by
  cases l <;> rfl

@[simp] theorem handOut_arena (l : Option ListHead) : (s.handOut a l p).arena = s.arena := by
  cases l <;> rfl

@[simp] theorem handOut_nonfree (l : Option ListHead) :
    (s.handOut a l p).nonfree = Function.update s.nonfree p true := by
  cases l <;> rfl

@[simp] theorem handOut_freeCount (l : Option ListHead) :
    (s.handOut a l p).freeCount = Function.update s.freeCount a (s.freeCount a - 1) := by
  cases l <;> rfl

theorem handOut_list_of_ne {l : Option ListHead} {w : ListHead} (h : l ≠ some w) :
    (s.handOut a l p).list w = s.list w := by
  cases l with
  | none => rfl
  | some l =>
    show Function.update s.list l _ w = _
    rw [Function.update_of_ne]
    rintro rfl
    exact h rfl

theorem mem_handOut {l : Option ListHead} {w : ListHead} {q : VmPage} :
    q ∈ (s.handOut a l p).list w ↔ q ∈ s.list w ∨ l = some w ∧ q = p := by
  by_cases h : l = some w
  · subst h
    show q ∈ Function.update s.list w (s.list w ++ [p]) w ↔ _
    simp
  · rw [handOut_list_of_ne h]
    simp [h]

/-- a page that is linked nowhere keeps the lists apart wherever it is linked -/
theorem apart_handOut (h : Links.Apart s.list) (hp : ∀ w, p ∉ s.list w) (l : Option ListHead) :
    Links.Apart (s.handOut a l p).list := by
  cases l with
  | none => exact h
  | some l => exact h.link hp (List.perm_append_singleton p _)

theorem PagesInv.only (h : PagesInv s) {b : Nat} (hp : s.Belongs p a) (hb : p ∈ s.list (.freeList b)) : b = a := by
  by_cases hm : b ∈ s.arenaList
  · exact (((h.free b hm p).mp hb).1.1).symm.trans hp.1
  · rw [h.unused b hm] at hb
    cases hb

/-- **A page taken.**  A page of the arena without the flag leaves the free list and goes out. -/
theorem PagesInv.take (h : PagesInv s) (ha : a ∈ s.arenaList) (hp : s.Belongs p a)
    (hf : s.nonfree p = false) {l : Option ListHead} (hl : ∀ w ∈ l, w.Outer) :
    Kept s ((s.listDelete p).handOut a l p) := by
  have hmem : p ∈ s.list (.freeList a) := (h.free a ha p).mpr ⟨hp, hf⟩
  have hlf : ∀ b, l ≠ some (.freeList b) := fun b e => hl _ (by rw [e]; rfl) b rfl
  have hlist : ∀ b, ((s.listDelete p).handOut a l p).list (.freeList b) =
      Links.unlink s.list p (.freeList b) := fun b => handOut_list_of_ne (hlf b)
  refine ⟨⟨?_, ?_, ?_, ?_, ?_, ?_⟩, by simp [State.listDelete], by simp [State.listDelete]⟩
  · simpa [State.listDelete] using h.sizes
  · refine apart_handOut (h.apart.unlink p) (fun w hw => ?_) l
    exact (Links.mem_unlink.mp hw).2 rfl
  · intro b hb q
    rw [handOut_arenaList] at hb
    rw [hlist, Links.mem_unlink, h.free b hb, handOut_nonfree]
    have hq : ((s.listDelete p).handOut a l p).Belongs q b ↔ s.Belongs q b := by
      unfold State.Belongs
      rw [handOut_arena]
      exact Iff.rfl
    rw [hq]
    by_cases e : q = p
    · subst e
      simp
    · rw [Function.update_of_ne e]
      simp only [e, ne_eq, not_false_eq_true, and_true]
      exact Iff.rfl
  · intro b hb
    rw [handOut_arenaList] at hb
    rw [hlist, Links.unlink_of_not_mem, h.unused b hb]
    rw [h.unused b hb]
    exact List.not_mem_nil
  · intro b hb
    rw [handOut_arenaList] at hb
    rw [hlist, handOut_freeCount]
    by_cases e : b = a
    · subst e
      have := Links.length_unlink (h.apart.nodup _) hmem
      rw [Function.update_self]
      show s.freeCount b - 1 = _
      rw [h.count b hb]
      omega
    · rw [Function.update_of_ne e, Links.unlink_of_not_mem]
      · exact h.count b hb
      · intro hb'
        exact e (h.only hp hb')
  · intro w hw q hq
    rw [handOut_nonfree]
    have hbel : ∀ {q b}, ((s.listDelete p).handOut a l p).Belongs q b ↔ s.Belongs q b := by
      intro q b
      unfold State.Belongs
      rw [handOut_arena]
      exact Iff.rfl
    simp only [handOut_arenaList, hbel]
    rcases mem_handOut.mp hq with hq | ⟨-, rfl⟩
    · obtain ⟨hq, e⟩ := Links.mem_unlink.mp hq
      rw [Function.update_of_ne e]
      exact h.out w hw q hq
    · exact ⟨⟨a, ha, hp⟩, Function.update_self ..⟩

/-- the head of a free list removed is a `list_delete` -/
theorem PagesInv.removeHead (h : PagesInv s) {ps : List VmPage} (hl : s.list l = p :: ps) :
    s.setList l ps = s.listDelete p := by
  unfold State.setList State.listDelete
  rw [h.apart.unlink_head hl]

/-- **A page put back.**  A page out of every list, with the flag, goes back to its arena. -/
theorem PagesInv.give (h : PagesInv s) (ha : a ∈ s.arenaList) (hp : s.Belongs p a)
    (hf : s.nonfree p = true) : Kept s ((s.listDelete p).putBack a p) := by
  have hmem : ∀ b, p ∉ s.list (.freeList b) := by
    intro b hb
    have e := h.only hp hb
    subst e
    have := ((h.free b ha p).mp hb).2
    rw [hf] at this
    cases this
  have hlist : ∀ w, w ≠ .freeList a → ((s.listDelete p).putBack a p).list w = Links.unlink s.list p w :=
    fun w hw => Function.update_of_ne hw _ _
  have hself : ((s.listDelete p).putBack a p).list (.freeList a) = p :: s.list (.freeList a) := by
    show Function.update (Links.unlink s.list p) (.freeList a)
      (p :: Links.unlink s.list p (.freeList a)) (.freeList a) = _
    rw [Function.update_self, Links.unlink_of_not_mem (hmem a)]
  refine ⟨⟨h.sizes, ?_, ?_, ?_, ?_, ?_⟩, rfl, rfl⟩
  · show Links.Apart (Function.update (Links.unlink s.list p) (.freeList a)
      (p :: Links.unlink s.list p (.freeList a)))
    refine (h.apart.unlink p).link (fun w hw => ?_) (List.Perm.refl _)
    exact (Links.mem_unlink.mp hw).2 rfl
  · intro b hb q
    show _ ↔ s.Belongs q b ∧ Function.update s.nonfree p false q = false
    by_cases eb : b = a
    · subst eb
      rw [hself, List.mem_cons, h.free b hb]
      by_cases e : q = p
      · subst e
        simp [hp]
      · simp [e]
    · rw [hlist _ (by simpa using eb), Links.mem_unlink, h.free b hb]
      by_cases e : q = p
      · subst e
        have : ¬ s.Belongs q b := fun hb' => eb (hb'.1.symm.trans hp.1)
        simp [this]
      · simp [e]
  · intro b hb
    have eb : b ≠ a := fun e => hb (e ▸ ha)
    rw [hlist _ (by simpa using eb), Links.unlink_of_not_mem (hmem b), h.unused b hb]
  · intro b hb
    show Function.update s.freeCount a (s.freeCount a + 1) b = _
    by_cases eb : b = a
    · subst eb
      rw [Function.update_self, hself, h.count b hb, List.length_cons]
      omega
    · rw [Function.update_of_ne eb, hlist _ (by simpa using eb), Links.unlink_of_not_mem (hmem b)]
      exact h.count b hb
  · intro w hw q hq
    rw [hlist w (hw a), Links.mem_unlink] at hq
    show _ ∧ Function.update s.nonfree p false q = true
    rw [Function.update_of_ne hq.2]
    exact h.out w hw q hq.1

/-! ## the functions -/

theorem PagesInv.setList_nil (h : PagesInv s) (hl : l.Outer) : Kept s (s.setList l []) := by
  have hm : ∀ {w q}, q ∈ Function.update s.list l [] w → q ∈ s.list w := by
    intro w q hq
    by_cases e : w = l
    · subst e
      rw [Function.update_self] at hq
      cases hq
    · rwa [Function.update_of_ne e] at hq
  have hf : ∀ b, Function.update s.list l [] (.freeList b) = s.list (.freeList b) := fun b =>
    Function.update_of_ne (fun e => hl b e.symm) _ _
  refine ⟨⟨h.sizes, h.apart.clear l, fun b hb q => ?_, fun b hb => ?_, fun b hb => ?_, fun w hw q hq => ?_⟩, rfl, rfl⟩
  · show q ∈ Function.update s.list l [] (.freeList b) ↔ _
    rw [hf]
    exact h.free b hb q
  · exact (hf b).trans (h.unused b hb)
  · show _ = ((Function.update s.list l [] (.freeList b)).length : Int)
    rw [hf]
    exact h.count b hb
  · exact h.out w hw q (hm hq)

/-- a page out of every list put on a list of a caller -/
theorem PagesInv.listAdd (h : PagesInv s) (hp : s.InHand p) (hl : l.Outer) {ps : List VmPage}
    (hps : ps.Perm (p :: s.list l)) : Kept s (s.setList l ps) := by
  have hf : ∀ b, Function.update s.list l ps (.freeList b) = s.list (.freeList b) := fun b =>
    Function.update_of_ne (fun e => hl b e.symm) _ _
  refine ⟨⟨h.sizes, h.apart.link hp.2.2 hps, fun b hb q => ?_, fun b hb => ?_, fun b hb => ?_,
    fun w hw q hq => ?_⟩, rfl, rfl⟩
  · show q ∈ Function.update s.list l ps (.freeList b) ↔ _
    rw [hf]
    exact h.free b hb q
  · exact (hf b).trans (h.unused b hb)
  · show _ = ((Function.update s.list l ps (.freeList b)).length : Int)
    rw [hf]
    exact h.count b hb
  · have hq' : q = p ∨ q ∈ s.list w := by
      change q ∈ Function.update s.list l ps w at hq
      by_cases e : w = l
      · subst e
        rw [Function.update_self, hps.mem_iff, List.mem_cons] at hq
        exact hq
      · rw [Function.update_of_ne e] at hq
        exact .inr hq
    rcases hq' with rfl | hq'
    · exact ⟨hp.1, hp.2.1⟩
    · exact h.out w hw q hq'

theorem PagesInv.unlink (h : PagesInv s) (hl : l.Outer) (hp : p ∈ s.list l) : Kept s (s.listDelete p) := by
  have hf : ∀ b, Links.unlink s.list p (.freeList b) = s.list (.freeList b) := fun b =>
    Links.unlink_of_not_mem fun hb => hl b (h.apart.once hp hb)
  refine ⟨⟨h.sizes, h.apart.unlink p, fun b hb q => ?_, fun b hb => ?_, fun b hb => ?_, fun w hw q hq => ?_⟩,
    rfl, rfl⟩
  · show q ∈ Links.unlink s.list p (.freeList b) ↔ _
    rw [hf]
    exact h.free b hb q
  · exact (hf b).trans (h.unused b hb)
  · show _ = ((Links.unlink s.list p (.freeList b)).length : Int)
    rw [hf]
    exact h.count b hb
  · exact h.out w hw q (Links.mem_unlink.mp hq).1

theorem listRemoveHead_cons {ps : List VmPage} (hl : s.list l = p :: ps) :
    s.listRemoveHead l = (s.setList l ps, some p) := by
  unfold State.listRemoveHead
  rw [hl]

theorem listRemoveHead_nil (hl : s.list l = []) : s.listRemoveHead l = (s, none) := by
  unfold State.listRemoveHead
  rw [hl]

theorem allocFrom_kept (hl : l.Outer) (need : Nat) :
    ∀ {s}, PagesInv s → a ∈ s.arenaList → Kept s (allocFrom l a need s).1 := by
  induction need with
  | zero => exact fun h _ => .refl h
  | succ need ih =>
    intro s h ha
    rw [allocFrom]
    cases hf : s.list (.freeList a) with
    | nil =>
      rw [listRemoveHead_nil hf]
      exact .refl h
    | cons p ps =>
      rw [listRemoveHead_cons hf, h.removeHead hf]
      obtain ⟨hp, hn⟩ := (h.free a ha p).mp (by rw [hf]; simp)
      have h1 := h.take ha hp hn (l := some l) fun w e => by cases e; exact hl
      exact h1.trans (ih h1.inv (h1.mem ha))

theorem allocWalk_kept (hl : l.Outer) (as : List Nat) :
    ∀ {s} need, PagesInv s → (∀ a ∈ as, a ∈ s.arenaList) → Kept s (allocWalk l as need s).1 := by
  induction as with
  | nil => exact fun _ h _ => .refl h
  | cons a as ih =>
    intro s need h has
    have h1 := allocFrom_kept hl need h (has a (by simp))
    rw [allocWalk]
    dsimp only
    split
    · exact h1
    · exact h1.trans (ih _ h1.inv fun b hb => h1.mem (has b (by simp [hb])))

theorem pmmAllocPages_kept (h : PagesInv s) (count : Nat) (hl : l.Outer) : Kept s (pmmAllocPages s count l).1 := by
  unfold pmmAllocPages
  split
  · exact .refl h
  · exact allocWalk_kept hl _ _ h fun a ha => ha

theorem pmmAllocPage_kept (h : PagesInv s) : Kept s (pmmAllocPage s).1 := by
  have h1 := h.setList_nil outer_stack
  have h2 := h1.trans (pmmAllocPages_kept h1.inv 1 outer_stack)
  exact h2.trans (h2.inv.setList_nil outer_stack)

/-- an address of an arena is in one of its pages -/
theorem index_lt {ar : Arena} (h : ar.Ok) {address : Nat} (ha : ar.HasAddress address) :
    (address - ar.base) / PAGE_SIZE < ar.pages := by
  obtain ⟨h1, h2⟩ := ha
  unfold Arena.last at h2
  have hpos := h.pos
  have hb := h.baseLt
  have hs := h.sizeLt
  obtain ⟨n, hn⟩ := h.size
  unfold Arena.pages
  rw [hn, Nat.mul_div_cancel_left n (by decide), Nat.div_lt_iff_lt_mul (by decide), Nat.mul_comm]
  omega

theorem rangeFrom_kept (hl : l.Outer) (need : Nat) :
    ∀ {s} address, PagesInv s → a ∈ s.arenaList → Kept s (rangeFrom l a need address s).1 := by
  induction need with
  | zero => exact fun _ h _ => .refl h
  | succ need ih =>
    intro s address h ha
    rw [rangeFrom]
    split
    · rename_i hin
      dsimp only
      split
      · exact .refl h
      · rename_i hn
        have h1 := h.take ha ⟨rfl, index_lt (h.sizes a ha) hin⟩ (by simpa using hn) (l := some l) fun w e => by
          cases e
          exact hl
        exact h1.trans (ih _ h1.inv (h1.mem ha))
    · exact .refl h

theorem rangeWalk_kept (hl : l.Outer) (as : List Nat) : ∀ {s} need address, PagesInv s → (∀ a ∈ as, a ∈ s.arenaList) →
      Kept s (rangeWalk l as need address s).1 := by
  induction as with
  | nil => exact fun _ _ h _ => .refl h
  | cons a as ih =>
    intro s need address h has
    have h1 := rangeFrom_kept hl need address h (has a (by simp))
    rw [rangeWalk]
    dsimp only
    split
    · exact h1
    · exact h1.trans (ih _ _ h1.inv fun b hb => h1.mem (has b (by simp [hb])))

theorem pmmAllocRange_kept (h : PagesInv s) (address count : Nat) (hl : l.Outer) :
    Kept s (pmmAllocRange s address count l).1 := by
  unfold pmmAllocRange
  split
  · exact .refl h
  · exact rangeWalk_kept hl _ _ _ h fun a ha => ha

/-- a run found is in the arena as far as `start + count` says, and without flags -/
theorem searchRun_some {flag : Nat → Bool} {pages count align alignedOffset start : Nat} (fuel : Nat) :
    ∀ {st}, searchRun flag pages count align alignedOffset fuel st = some (some start) →
      (start + count) % 2 ^ 32 ≤ pages ∧ ∀ i < count, flag (start + i) = false := by
  induction fuel with
  | zero =>
    intro st h
    cases h
  | succ fuel ih =>
    intro st h
    rw [searchRun] at h
    split at h
    · rename_i hle
      split at h
      · exact ih h
      · rename_i hfind
        cases h
        rw [List.find?_eq_none] at hfind
        exact ⟨hle.2, fun i hi => by simpa using hfind i (by simpa using hi)⟩
    · cases h

theorem contiguousWalk_some {past : VmPage → Bool} {fuel count alignmentLog2 start : Nat} (as : List Nat)
    (h : contiguousWalk s past fuel count alignmentLog2 as = some (some (a, start))) :
    a ∈ as ∧ (start + count) % 2 ^ 32 ≤ (s.arena a).pages ∧ ∀ i < count, s.flagAt past a (start + i) = false := by
  induction as with
  | nil => cases h
  | cons b as ih =>
    rw [contiguousWalk] at h
    split at h
    · cases h
    · rename_i st hf
      cases h
      unfold State.findRun at hf
      dsimp only at hf
      split at hf
      · split at hf
        · cases hf
        · exact ⟨by simp, searchRun_some fuel hf⟩
      · cases hf
    · obtain ⟨h1, h2⟩ := ih h
      exact ⟨by simp [h1], h2⟩

/-- the pages of a run taken one by one -/
theorem takeRun_kept {l : Option ListHead} (hl : ∀ w ∈ l, w.Outer) (is : List Nat) :
    ∀ {s}, PagesInv s → a ∈ s.arenaList → is.Nodup → (∀ i ∈ is, i < (s.arena a).pages ∧ s.nonfree ⟨a, i⟩ = false) →
      Kept s (is.foldl (takePage l a) s) := by
  induction is with
  | nil => exact fun h _ _ _ => .refl h
  | cons i is ih =>
    intro s h ha hn hi
    obtain ⟨hi1, hi2⟩ := hi i (by simp)
    have h1 := h.take ha (p := ⟨a, i⟩) ⟨rfl, hi1⟩ hi2 hl
    rw [List.nodup_cons] at hn
    refine h1.trans (ih h1.inv (h1.mem ha) hn.2 fun j hj => ?_)
    have hne : (⟨a, j⟩ : VmPage) ≠ ⟨a, i⟩ := by
      intro e
      cases e
      exact hn.1 hj
    obtain ⟨hj1, hj2⟩ := hi j (by simp [hj])
    refine ⟨by rwa [h1.arena], ?_⟩
    show ((s.listDelete ⟨a, i⟩).handOut a l ⟨a, i⟩).nonfree ⟨a, j⟩ = false
    rw [handOut_nonfree, Function.update_of_ne hne]
    exact hj2

theorem pmmAllocContiguous_kept (h : PagesInv s) {fuel count alignmentLog2 : Nat} {past : VmPage → Bool}
    {l : Option ListHead} (hl : ∀ w ∈ l, w.Outer) {r : Nat × Option Nat}
    (hs : pmmAllocContiguous fuel past s count alignmentLog2 l = some (s', r)) : Kept s s' := by
  unfold pmmAllocContiguous at hs
  split at hs
  · cases hs
    exact .refl h
  · split at hs
    · cases hs
    · cases hs
      exact .refl h
    · rename_i b start hw
      cases hs
      obtain ⟨ha, hle, hflag⟩ := contiguousWalk_some _ hw
      refine takeRun_kept hl _ h ha (List.nodup_range' 1) fun i hi => ?_
      obtain ⟨hi1, hi2⟩ := List.mem_range'_1.mp hi
      have hlt : i < (s.arena b).pages := by omega
      refine ⟨hlt, ?_⟩
      have := hflag (i - start) (by omega)
      unfold State.flagAt at this
      rwa [show start + (i - start) = i by omega, if_pos hlt] at this

theorem freeLoop_kept (hl : l.Outer) (n : Nat) : ∀ {s}, PagesInv s → Kept s (freeLoop l n s).1 := by
  induction n with
  | zero => exact fun h => .refl h
  | succ n ih =>
    intro s h
    rw [freeLoop]
    cases hf : s.list l with
    | nil =>
      rw [listRemoveHead_nil hf]
      exact .refl h
    | cons p ps =>
      rw [listRemoveHead_cons hf, h.removeHead hf]
      have hp : p ∈ s.list l := by
        rw [hf]
        simp
      dsimp only
      split
      · rename_i b hb
        have ha : b ∈ s.arenaList := List.mem_of_find?_eq_some hb
        have hbel : (s.listDelete p).Belongs p b := by simpa using List.find?_some hb
        have h1 := h.give ha hbel (h.out l hl p hp).2
        exact h1.trans (ih h1.inv)
      · have h1 := h.unlink hl hp
        exact h1.trans (ih h1.inv)

theorem pmmFree_kept (h : PagesInv s) (hl : l.Outer) : Kept s (pmmFree s l).1 := freeLoop_kept hl _ h

theorem pmmFreePage_kept (h : PagesInv s) (hp : s.InHand p) : Kept s (pmmFreePage s p).1 := by
  have h1 := h.setList_nil outer_stack
  have hp1 : (s.setList .stack []).InHand p := by
    refine ⟨hp.1, hp.2.1, fun w hw => ?_⟩
    change p ∈ Function.update s.list .stack [] w at hw
    by_cases e : w = .stack
    · subst e
      rw [Function.update_self] at hw
      cases hw
    · rw [Function.update_of_ne e] at hw
      exact hp.2.2 w hw
  have h2 := h1.trans (h1.inv.listAdd hp1 outer_stack (List.Perm.refl _))
  exact h2.trans (pmmFree_kept h2.inv outer_stack)

/-! ## `pmm_add_arena` -/

theorem arenaInsert_mem (id priority : Nat) {b : Nat} (as : List Nat) :
    b ∈ arenaInsert s id priority as ↔ b = id ∨ b ∈ as := by
  induction as with
  | nil => simp [arenaInsert]
  | cons a as ih =>
    rw [arenaInsert]
    split
    · simp
    · rw [List.mem_cons, ih, List.mem_cons]
      constructor
      · rintro (h | h | h) <;> simp [h]
      · rintro (h | h | h) <;> simp [h]

/-- the loop over the pages of a fresh arena -/
theorem addPages (id n : Nat) (s : State) (hl : s.list (.freeList id) = []) (hc : s.freeCount id = 0) :
    (List.range n).foldl (addPage id) s =
      { s with list := Function.update s.list (.freeList id) ((List.range n).map (VmPage.mk id))
               freeCount := Function.update s.freeCount id n } := by
  induction n with
  | zero =>
    show s = _
    have h1 : Function.update s.list (.freeList id) [] = s.list := by
      rw [← hl]
      exact Function.update_eq_self _ _
    have h2 : Function.update s.freeCount id ((0 : Nat) : Int) = s.freeCount := by
      rw [show ((0 : Nat) : Int) = 0 from rfl, ← hc]
      exact Function.update_eq_self _ _
    rw [List.range_zero, List.map_nil, h1, h2]
  | succ n ih =>
    rw [List.range_succ, List.foldl_append, ih]
    show addPage id _ n = _
    simp only [addPage, State.listAddTail, State.setList, Function.update_self, Function.update_idem,
      List.map_append, List.map_cons, List.map_nil]
    rfl

theorem pmmAddArena_eq (s : State) (id : Nat) (arena : Arena) : pmmAddArena s id arena =
    { arenaList := arenaInsert s id arena.priority s.arenaList
      arena := Function.update s.arena id arena
      freeCount := Function.update s.freeCount id arena.pages
      nonfree := fun page => if page.arena = id then false else s.nonfree page
      list := Function.update s.list (.freeList id) ((List.range arena.pages).map (VmPage.mk id)) } := by
  unfold pmmAddArena
  dsimp only
  rw [addPages id _ _ (Function.update_self ..) (Function.update_self ..)]
  simp only [Function.update_idem]

theorem pmmAddArena_inv (h : PagesInv s) {id : Nat} (hid : id ∉ s.arenaList) {arena : Arena}
    (hok : arena.Ok) : PagesInv (pmmAddArena s id arena) := by
  rw [pmmAddArena_eq]
  -- the pages of the new arena were on no list
  have hout : ∀ w, w ≠ .freeList id → ∀ p ∈ s.list w, p.arena ≠ id := by
    intro w hw p hp e
    have hp' : ∃ a ∈ s.arenaList, s.Belongs p a := by
      cases w with
      | freeList b =>
        by_cases hb : b ∈ s.arenaList
        · exact ⟨b, hb, ((h.free b hb p).mp hp).1⟩
        · rw [h.unused b hb] at hp
          cases hp
      | caller n => exact (h.out _ (outer_caller n) p hp).1
      | stack => exact (h.out _ outer_stack p hp).1
    obtain ⟨a, ha, hpa⟩ := hp'
    exact hid (by rwa [← e, hpa.1])
  have hmem : ∀ {a}, a ∈ arenaInsert s id arena.priority s.arenaList ↔ a = id ∨ a ∈ s.arenaList :=
    arenaInsert_mem id arena.priority s.arenaList
  have hne : ∀ {a}, a ∈ s.arenaList → a ≠ id := fun ha e => hid (e ▸ ha)
  refine ⟨?_, ⟨?_, ?_⟩, ?_, ?_, ?_, ?_⟩ <;> dsimp only
  · intro a ha
    rcases hmem.mp ha with rfl | ha
    · rw [Function.update_self]
      exact hok
    · rw [Function.update_of_ne (hne ha)]
      exact h.sizes a ha
  · intro w
    by_cases e : w = .freeList id
    · subst e
      rw [Function.update_self]
      refine List.nodup_range.map fun i j e => ?_
      cases e
      rfl
    · rw [Function.update_of_ne e]
      exact h.apart.nodup w
  · intro w w' p hw hw'
    by_cases e : w = .freeList id <;> by_cases e' : w' = .freeList id
    · rw [e, e']
    · subst e
      rw [Function.update_self, List.mem_map] at hw
      rw [Function.update_of_ne e'] at hw'
      obtain ⟨i, -, rfl⟩ := hw
      exact absurd rfl (hout w' e' _ hw')
    · subst e'
      rw [Function.update_self, List.mem_map] at hw'
      rw [Function.update_of_ne e] at hw
      obtain ⟨i, -, rfl⟩ := hw'
      exact absurd rfl (hout w e _ hw)
    · rw [Function.update_of_ne e] at hw
      rw [Function.update_of_ne e'] at hw'
      exact h.apart.once hw hw'
  · intro a ha p
    unfold State.Belongs
    dsimp only
    by_cases e : a = id
    · subst e
      rw [Function.update_self, Function.update_self, List.mem_map]
      constructor
      · rintro ⟨i, hi, rfl⟩
        exact ⟨⟨rfl, List.mem_range.mp hi⟩, if_pos rfl⟩
      · rintro ⟨⟨h1, h2⟩, -⟩
        refine ⟨p.index, List.mem_range.mpr h2, ?_⟩
        rw [← h1]
    · have ha' := (hmem.mp ha).resolve_left e
      rw [Function.update_of_ne (by simpa using e), Function.update_of_ne e, h.free a ha']
      refine and_congr_right fun hp => ?_
      have : p.arena ≠ id := fun e' => e (hp.1.symm.trans e')
      rw [if_neg this]
  · intro a ha
    have ha' := not_or.mp (mt hmem.mpr ha)
    rw [Function.update_of_ne (by simpa using ha'.1)]
    exact h.unused a ha'.2
  · intro a ha
    by_cases e : a = id
    · subst e
      rw [Function.update_self, Function.update_self, List.length_map, List.length_range]
    · rw [Function.update_of_ne e, Function.update_of_ne (by simpa using e)]
      exact h.count a ((hmem.mp ha).resolve_left e)
  · intro w hw p hp
    rw [Function.update_of_ne (hw id)] at hp
    obtain ⟨⟨a, ha, hpa⟩, hf⟩ := h.out w hw p hp
    refine ⟨⟨a, hmem.mpr (.inr ha), hpa.1, ?_⟩, ?_⟩
    · dsimp only
      rw [Function.update_of_ne (hne ha)]
      exact hpa.2
    · rw [if_neg (hout w (hw id) p hp)]
      exact hf

/-! ## every run -/

theorem PagesInv.boot (h : Boot s) : PagesInv s where
  sizes a ha := by
    rw [h.arenaList] at ha
    cases ha
  apart := by
    refine ⟨fun w => ?_, fun {w w' p} hw => ?_⟩
    · rw [h.list]
      exact List.nodup_nil
    · rw [h.list] at hw
      cases hw
  free a ha := by
    rw [h.arenaList] at ha
    cases ha
  unused a _ := h.list _
  count a ha := by
    rw [h.arenaList] at ha
    cases ha
  out w _ p hp := by
    rw [h.list] at hp
    cases hp

theorem PagesInv.step (h : PagesInv s) {op : PmmOp} (hs : pmmStep s op s') : PagesInv s' := by
  cases op with
  | addArena id arena =>
    obtain ⟨hid, hok, rfl⟩ := hs
    exact pmmAddArena_inv h hid hok
  | allocPages count n =>
    cases hs
    exact (pmmAllocPages_kept h count (outer_caller n)).inv
  | allocPage =>
    cases hs
    exact (pmmAllocPage_kept h).inv
  | allocRange address count n =>
    cases hs
    exact (pmmAllocRange_kept h address count (outer_caller n)).inv
  | allocContiguous count alignmentLog2 n =>
    obtain ⟨fuel, past, r, hs⟩ := hs
    refine (pmmAllocContiguous_kept h (fun w hw => ?_) hs).inv
    obtain ⟨m, -, rfl⟩ := Option.map_eq_some_iff.mp hw
    exact outer_caller m
  | free n =>
    cases hs
    exact (pmmFree_kept h (outer_caller n)).inv
  | freePage page =>
    obtain ⟨hp, rfl⟩ := hs
    exact (pmmFreePage_kept h hp).inv
  | unlink n page =>
    obtain ⟨hp, rfl⟩ := hs
    exact (h.unlink (outer_caller n) hp).inv
  | link n page =>
    obtain ⟨hp, rfl⟩ := hs
    exact (h.listAdd hp (outer_caller n) (List.perm_append_singleton page _)).inv

/-- **Page conservation.**  In every reachable state the flag, the free list and the counter of each arena
agree, and no page is on two lists of callers. -/
theorem pages_conserved (hr : pmmSys.Reach s) : Conserved s :=
  (hr.invariant (I := PagesInv) (fun _ h0 => .boot h0) fun _ _ _ h _ hs => h.step hs).conserved

end

/-! ## a run on one arena -/

def noArenas : State where
  arenaList := []
  arena _ := ⟨0, 0, 0, false⟩
  freeCount _ := 0
  nonfree _ := false
  list _ := []

def smallArena : Arena := ⟨0x40000000, 0x3000, 0, true⟩

theorem smallArena_ok : smallArena.Ok := ⟨⟨0x40000, rfl⟩, ⟨3, rfl⟩, by decide, by decide, by decide⟩

/-- the theorem after the second and third of three pages went out, the third on a list, and the second came
back -/
theorem pages_conserved_three : ∃ s, pmmSys.Reach s ∧ s.list (.freeList 0) = [⟨0, 1⟩, ⟨0, 0⟩] ∧
    s.list (.caller 7) = [⟨0, 2⟩] ∧ Conserved s := by
  have h0 : pmmSys.Reach noArenas := .init ⟨rfl, fun _ => rfl⟩
  have h1 : pmmSys.Reach (pmmAddArena noArenas 0 smallArena) :=
    .step (a := .addArena 0 smallArena) h0 trivial ⟨List.not_mem_nil, smallArena_ok, rfl⟩
  have h2 := Machine.Run.step (a := PmmOp.allocRange 0x40001abc 1 5) h1 trivial rfl
  have h3 := Machine.Run.step (a := PmmOp.allocRange 0x40002000 9 7) h2 trivial rfl
  have h4 := Machine.Run.step (a := PmmOp.free 5) h3 trivial rfl
  exact ⟨_, h4, rfl, rfl, pages_conserved h4⟩

end PageList
end LkHv
