import LkHv.Kernel.Novm
import LkHv.Lib.Machine
import Mathlib.Order.Interval.Finset.Nat

/-!
# The page maps over a run (`kernel/novm/novm.c`)

`novm_alloc_specific_pages` and `novm_free_pages` look for the arena of the first address only, and then walk the page
map for as many bytes as pages were asked for.

* `Novm`, `novmStep`, `novmSys`   allocations and frees in any order, and the grants that are out;
* `Disjoint`                      the grants have no page twice, and lie each in an arena;
* `Served`                        what a request is promised;
* `WithinArena`                   the request ends in the arena in which it starts;
* `novm_page_map`                 while all are like that, grants are disjoint; a request is served exactly if it is.
-/

namespace LkHv
namespace Novm

/-- the pages of an arena that one allocation gave and that were not freed since -/
structure Grant where
  arena : NovmArena
  pages : Finset Nat

/-- the arenas, the memory with the page maps, and the grants -/
structure State where
  layout : Layout
  mem : Nat → Byte
  grants : List Grant

/-- the pages of a request by its first address -/
def grantOf (l : Layout) (address pages : Nat) : Option Grant :=
  (l.arena.find? fun n => inArena n address).map fun n =>
    ⟨n, Finset.Ico (pageIndex n address) (pageIndex n address + pages)⟩

/-- what is left of a grant -/
def Grant.drop (g h : Grant) : Grant := if g.arena = h.arena then ⟨g.arena, g.pages \ h.pages⟩ else g

inductive NovmOp
  | alloc (pages : Nat) (arenaBitmap : BitVec 32)
  | allocSpecific (address pages : Nat)
  | free (address pages : Nat)

def novmStep (s : State) : NovmOp → State
  | .alloc pages arenaBitmap =>
    let r := novmAllocPages s.layout.arena s.mem pages arenaBitmap
    { s with mem := r.1
             grants := if r.2 = 0 then s.grants else (grantOf s.layout r.2 pages).toList ++ s.grants }
  | .allocSpecific address pages =>
    let r := novmAllocSpecificPages s.layout.arena s.mem address pages
    { s with mem := r.1
             grants := if r.2.1 = NO_ERROR then (grantOf s.layout address pages).toList ++ s.grants else s.grants }
  | .free address pages =>
    { s with mem := (novmFreePages s.layout.arena s.mem address pages).1
             grants := match grantOf s.layout address pages with
               | some h => s.grants.map fun g => g.drop h
               | none => s.grants }

/-- behind boot: the maps are clear, and nothing was granted -/
def NovmInit (s : State) : Prop := (∀ n ∈ s.layout.arena, ∀ i < n.pages, s.mem (n.map + i) = 0) ∧ s.grants = []

def novmSys : Machine State NovmOp := Machine.ofFun NovmInit fun s op => some (novmStep s op)

/-- the state that boot leaves -/
theorem boot_init (mem : Nat → Byte) (rs : List Region) (hv : ∀ r ∈ rs, r.Valid)
    (hp : rs.Pairwise fun r q => ∀ a, r.Owns a → ¬ q.Owns a) :
    NovmInit ⟨bootLayout mem rs hv hp, (boot mem rs).1, []⟩ := by
  refine ⟨fun n hn i hi => ?_, rfl⟩
  obtain ⟨r, -, hready⟩ := boot_ready hv hp hn
  exact (hready.map i hi).2

theorem boot_init_one : ∃ hv hp, NovmInit ⟨bootLayout (fun _ => 1) [⟨0x10000, 0x4000, none⟩] hv hp,
    (boot (fun _ => 1) [⟨0x10000, 0x4000, none⟩]).1, []⟩ :=
  ⟨fun r h => by rw [List.mem_singleton.mp h]; exact ⟨by decide, by decide, .inl rfl⟩, List.pairwise_singleton _ _,
    boot_init _ _ _ _⟩

/-! ## the law -/

/-- somebody has page `i` of an arena -/
def State.Holds (s : State) (n : NovmArena) (i : Nat) : Prop := ∃ g ∈ s.grants, g.arena = n ∧ i ∈ g.pages

/-- the pages from `i` on are in the arena, and nobody has one of them -/
def State.FreeRun (s : State) (n : NovmArena) (i pages : Nat) : Prop :=
  i + pages ≤ n.pages ∧ ∀ j < pages, ¬ s.Holds n (i + j)

/-- a request that is wholly inside an arena -/
def State.Inside (s : State) (address pages : Nat) : Prop :=
  ∃ n ∈ s.layout.arena, inArena n address = true ∧ pageIndex n address + pages ≤ n.pages

/-- none of these bytes is in a page map -/
def State.Untouched (s : State) (touched : List Nat) : Prop :=
  ∀ n ∈ s.layout.arena, ∀ i < n.pages, n.map + i ∉ touched

/-- the grants are disjoint, and each is inside one arena -/
structure State.Disjoint (s : State) : Prop where
  apart : s.grants.Pairwise fun g h => g.arena = h.arena → ∀ i ∈ g.pages, i ∉ h.pages
  inside : ∀ g ∈ s.grants, g.arena ∈ s.layout.arena ∧ ∀ i ∈ g.pages, i < g.arena.pages

/-- **What a request is promised**: it is granted if and only if there is a run for it, or the run is free; and one
that is not inside an arena is refused without a look at a page map. -/
def State.Served (s : State) : NovmOp → Prop
  | .alloc pages arenaBitmap =>
    (novmAllocPages s.layout.arena s.mem pages arenaBitmap).2 ≠ 0 ↔
      0 < pages ∧ ∃ k n, s.layout.arena[k]? = some n ∧ arenaBitmap.getLsbD k = true ∧ ∃ i, s.FreeRun n i pages
  | .allocSpecific address pages =>
    let r := novmAllocSpecificPages s.layout.arena s.mem address pages
    (r.2.1 = NO_ERROR ↔ ∃ n ∈ s.layout.arena, inArena n address = true ∧ s.FreeRun n (pageIndex n address) pages) ∧
    (¬ s.Inside address pages → r.2.1 ≠ NO_ERROR ∧ s.Untouched r.2.2)
  | .free address pages =>
    ¬ s.Inside address pages → s.Untouched (novmFreePages s.layout.arena s.mem address pages).2

/-- **The condition**: a request that starts in an arena ends there -/
def WithinArena (s : State) : NovmOp → Prop
  | .alloc _ _ => True
  | .allocSpecific address pages | .free address pages =>
    ∀ n ∈ s.layout.arena, inArena n address = true → pageIndex n address + pages ≤ n.pages

/-! ## one step -/

/-- a map byte is set exactly if somebody has its page -/
structure Inv (s : State) : Prop extends s.Disjoint where
  byte : ∀ n ∈ s.layout.arena, ∀ i < n.pages, s.mem (n.map + i) ≠ 0 ↔ s.Holds n i

section
variable {s : State} {n : NovmArena} {i pages : Nat}

/-- a write of the map bytes of a run, at a page of the same or of another arena -/
theorem memset_map (l : Layout) (hn : n ∈ l.arena) (hfit : i + pages ≤ n.pages) (mem : Nat → Byte) (c : Byte)
    {m : NovmArena} (hm : m ∈ l.arena) {j : Nat} (hj : j < m.pages) : memset mem (n.map + i) c pages (m.map + j) =
      if m = n ∧ i ≤ j ∧ j < i + pages then c else mem (m.map + j) := by
  by_cases he : m = n
  · subst he
    by_cases hin : i ≤ j ∧ j < i + pages
    · rw [if_pos ⟨rfl, hin⟩]
      exact if_pos ⟨by omega, by omega⟩
    · rw [if_neg fun h => hin h.2]
      exact memset_other fun h => hin ⟨by omega, by omega⟩
  · rw [if_neg fun h => he h.1]
    apply memset_other
    intro h
    apply (l.apart m hm n hn he).map j hj (m.map + j - n.map)
    · omega
    · omega

/-- a run that was free is granted -/
theorem Inv.took (hi : Inv s) (hn : n ∈ s.layout.arena) (hfree : s.FreeRun n i pages) :
    Inv { s with mem := memset s.mem (n.map + i) 1 pages, grants := ⟨n, Finset.Ico i (i + pages)⟩ :: s.grants } := by
  obtain ⟨hfit, hnone⟩ := hfree
  have hnot : ∀ j, i ≤ j → j < i + pages → ¬ s.Holds n j := by
    intro j h1 h2
    have h := hnone (j - i) (by omega)
    rwa [show i + (j - i) = j by omega] at h
  refine ⟨⟨List.pairwise_cons.mpr ⟨fun h hh he j hj hjh => ?_, hi.apart⟩, fun g hg => ?_⟩, fun m hm j hj => ?_⟩
  · obtain ⟨h1, h2⟩ := Finset.mem_Ico.mp hj
    exact hnot j h1 h2 ⟨h, hh, he.symm, hjh⟩
  · rcases List.mem_cons.mp hg with rfl | hg
    · refine ⟨hn, fun j hj => ?_⟩
      have h := (Finset.mem_Ico.mp hj).2
      dsimp only
      omega
    · exact hi.inside g hg
  · dsimp only
    rw [memset_map s.layout hn hfit s.mem 1 hm hj]
    split
    · rename_i h
      obtain ⟨rfl, h1, h2⟩ := h
      exact ⟨fun _ => ⟨_, List.mem_cons_self, rfl, Finset.mem_Ico.mpr ⟨h1, h2⟩⟩, fun _ => by decide⟩
    · rename_i h
      rw [hi.byte m hm j hj]
      constructor
      · rintro ⟨g, hg, he, hjg⟩
        exact ⟨g, List.mem_cons_of_mem _ hg, he, hjg⟩
      · rintro ⟨g, hg, he, hjg⟩
        rcases List.mem_cons.mp hg with rfl | hg
        · obtain ⟨h1, h2⟩ := Finset.mem_Ico.mp hjg
          exact absurd ⟨he.symm, h1, h2⟩ h
        · exact ⟨g, hg, he, hjg⟩

/-- what is left of a grant -/
theorem mem_drop {g h : Grant} {j : Nat} :
    j ∈ (g.drop h).pages ↔ j ∈ g.pages ∧ ¬ (g.arena = h.arena ∧ j ∈ h.pages) := by
  unfold Grant.drop
  split
  · rename_i he
    rw [Finset.mem_sdiff]
    exact ⟨fun hj => ⟨hj.1, fun hh => hj.2 hh.2⟩, fun hj => ⟨hj.1, fun hh => hj.2 ⟨he, hh⟩⟩⟩
  · rename_i he
    exact ⟨fun hj => ⟨hj, fun hh => he hh.1⟩, fun hj => hj.1⟩

theorem drop_arena (g h : Grant) : (g.drop h).arena = g.arena := by
  unfold Grant.drop
  split <;> rfl

/-- a run is freed, whoever had its pages -/
theorem Inv.gave (hi : Inv s) (hn : n ∈ s.layout.arena) (hfit : i + pages ≤ n.pages) :
    Inv { s with mem := memset s.mem (n.map + i) 0 pages
                 grants := s.grants.map fun g => g.drop ⟨n, Finset.Ico i (i + pages)⟩ } := by
  refine ⟨⟨List.pairwise_map.mpr (hi.apart.imp fun {g h} hgh he j hjg hjh => ?_), fun g hg => ?_⟩,
    fun m hm j hj => ?_⟩
  · rw [drop_arena, drop_arena] at he
    exact hgh he j (mem_drop.mp hjg).1 (mem_drop.mp hjh).1
  · obtain ⟨g', hg', rfl⟩ := List.mem_map.mp hg
    rw [drop_arena]
    exact ⟨(hi.inside g' hg').1, fun j hj => (hi.inside g' hg').2 j (mem_drop.mp hj).1⟩
  · dsimp only
    rw [memset_map s.layout hn hfit s.mem 0 hm hj]
    split
    · rename_i h
      obtain ⟨rfl, h1, h2⟩ := h
      refine ⟨fun h0 => absurd rfl h0, ?_⟩
      rintro ⟨g, hg, he, hjg⟩
      obtain ⟨g', hg', rfl⟩ := List.mem_map.mp hg
      rw [drop_arena] at he
      exact absurd ⟨he, Finset.mem_Ico.mpr ⟨h1, h2⟩⟩ (mem_drop.mp hjg).2
    · rename_i h
      rw [hi.byte m hm j hj]
      constructor
      · rintro ⟨g, hg, he, hjg⟩
        refine ⟨_, List.mem_map_of_mem hg, (drop_arena _ _).trans he, mem_drop.mpr ⟨hjg, fun hh => ?_⟩⟩
        obtain ⟨h1, h2⟩ := Finset.mem_Ico.mp hh.2
        exact h ⟨he.symm.trans hh.1, h1, h2⟩
      · rintro ⟨g, hg, he, hjg⟩
        obtain ⟨g', hg', rfl⟩ := List.mem_map.mp hg
        rw [drop_arena] at he
        exact ⟨g', hg', he, (mem_drop.mp hjg).1⟩

/-- a map byte is clear exactly if nobody has its page -/
theorem Inv.clear_iff (hi : Inv s) (hn : n ∈ s.layout.arena) {j : Nat} (hj : j < n.pages) :
    (s.mem (n.map + j) != 0) = false ↔ ¬ s.Holds n j := by
  rw [← hi.byte n hn j hj, bne_eq_false_iff_eq]
  exact not_not.symm

/-- the scan of a run -/
theorem Inv.firstUsed_none_iff (hi : Inv s) (hn : n ∈ s.layout.arena) (hfit : i + pages ≤ n.pages) :
    FirstFit.firstUsed (fun j => s.mem (n.map + j) != 0) i pages 0 = none ↔ s.FreeRun n i pages := by
  constructor
  · intro h
    refine ⟨hfit, fun j hj => ?_⟩
    rw [← hi.clear_iff hn (show i + j < n.pages by lia)]
    exact FirstFit.firstUsed_none h j (Nat.zero_le j) (by lia)
  · intro h
    cases hu : FirstFit.firstUsed (fun j => s.mem (n.map + j) != 0) i pages 0 with
    | none => rfl
    | some k =>
      obtain ⟨-, hk, hused, -⟩ := FirstFit.firstUsed_some hu
      have hclear := (hi.clear_iff hn (show i + k < n.pages by lia)).mpr (h.2 k (by lia))
      exact absurd (hused.symm.trans hclear) (by decide)

/-- **`novm_alloc_helper`** takes a free run, or there is none -/
theorem Inv.helper (hi : Inv s) (hn : n ∈ s.layout.arena) (pages : Nat) :
    (0 < pages ∧ ∃ i, s.FreeRun n i pages ∧ novmAllocHelper s.mem n pages =
      (memset s.mem (n.map + i) 1 pages, n.base + i <<< PAGE_SIZE_SHIFT)) ∨
    (novmAllocHelper s.mem n pages = (s.mem, 0) ∧ ¬ (0 < pages ∧ ∃ i, s.FreeRun n i pages)) := by
  unfold novmAllocHelper
  by_cases h0 : pages = 0 ∨ n.pages < pages
  · rw [if_pos h0]
    refine .inr ⟨rfl, ?_⟩
    rintro ⟨hpos, i, hfit, -⟩
    omega
  · rw [if_neg h0]
    have hpos : 0 < pages := by omega
    cases hf : FirstFit.firstFit (fun i => s.mem (n.map + i) != 0) pages (n.pages - pages) 0 with
    | some i =>
      obtain ⟨-, hlast, hclear⟩ := FirstFit.firstFit_some hf
      have hfit : i + pages ≤ n.pages := by omega
      refine .inl ⟨hpos, i, ⟨hfit, fun j hj => ?_⟩, rfl⟩
      exact (hi.clear_iff hn (show i + j < n.pages by omega)).mp (hclear j hj)
    | none =>
      refine .inr ⟨rfl, ?_⟩
      rintro ⟨-, i, hfit, hnone⟩
      obtain ⟨l, hl, hused⟩ := FirstFit.firstFit_none hf i (Nat.zero_le i) (by omega)
      have hclear := (hi.clear_iff hn (show i + l < n.pages by omega)).mpr (hnone l hl)
      exact absurd (hused.symm.trans hclear) (by decide)

/-- what a walk over the arenas `ns`, the first of which has number `k`, may give -/
def State.Outcome (s : State) (pages : Nat) (bitmap : BitVec 32) (k : Nat) (ns : List NovmArena)
    (r : (Nat → Byte) × Nat) : Prop :=
  (0 < pages ∧ ∃ j n i, ns[j]? = some n ∧ bitmap.getLsbD (k + j) = true ∧ s.FreeRun n i pages ∧
    r = (memset s.mem (n.map + i) 1 pages, n.base + i <<< PAGE_SIZE_SHIFT)) ∨
  (r = (s.mem, 0) ∧ ∀ j n, ns[j]? = some n → bitmap.getLsbD (k + j) = true → ¬ (0 < pages ∧ ∃ i, s.FreeRun n i pages))

/-- an arena that is passed over -/
theorem State.Outcome.behind {bitmap : BitVec 32} {k : Nat} {ns : List NovmArena} {r : (Nat → Byte) × Nat}
    (h : s.Outcome pages bitmap (k + 1) ns r)
    (hn : bitmap.getLsbD k = true → ¬ (0 < pages ∧ ∃ i, s.FreeRun n i pages)) :
    s.Outcome pages bitmap k (n :: ns) r := by
  rcases h with ⟨hpos, j, m, i, hj, hbit, hfree, hr⟩ | ⟨hr, hnone⟩
  · exact .inl ⟨hpos, j + 1, m, i, hj, by rwa [show k + (j + 1) = k + 1 + j by lia], hfree, hr⟩
  · refine .inr ⟨hr, fun j m hj hbit => ?_⟩
    cases j with
    | zero =>
      cases hj
      exact hn hbit
    | succ j =>
      rw [show k + (j + 1) = k + 1 + j by lia] at hbit
      exact hnone j m hj hbit

/-- **`novm_alloc_pages`** takes a free run of an arena that it may use, or there is none -/
theorem Inv.walk (hi : Inv s) (pages : Nat) (bitmap : BitVec 32) : ∀ (ns : List NovmArena) (k : Nat),
    (∀ n ∈ ns, n ∈ s.layout.arena) → s.Outcome pages bitmap k ns (allocFrom s.mem pages bitmap k ns) := by
  intro ns
  induction ns with
  | nil =>
    intro k _
    refine .inr ⟨rfl, fun j n hj => ?_⟩
    cases hj
  | cons n ns ih =>
    intro k hns
    have hn := hns n List.mem_cons_self
    have htail := ih (k + 1) fun m hm => hns m (List.mem_cons_of_mem _ hm)
    unfold allocFrom
    by_cases hbit : bitmap.getLsbD k = true
    · rw [if_pos hbit]
      rcases hi.helper hn pages with ⟨hpos, i, hfree, hr⟩ | ⟨hr, hnone⟩
      · have hne := ((s.layout.sized n hn).address (show i < n.pages by have := hfree.1; omega)).2.2
        rw [hr]
        exact .inl ⟨hpos, 0, n, i, rfl, hbit, hfree, if_pos hne⟩
      · rw [hr]
        exact htail.behind fun _ => hnone
    · rw [if_neg hbit]
      exact htail.behind fun h => absurd h hbit

/-- the grant of a run by its address -/
theorem grantOf_eq (hn : n ∈ s.layout.arena) {address : Nat} (h : inArena n address = true) :
    grantOf s.layout address pages = some ⟨n, Finset.Ico (pageIndex n address) (pageIndex n address + pages)⟩ := by
  unfold grantOf
  rw [s.layout.find_eq hn h]
  rfl

/-- the arena of an address, or that there is none -/
theorem find_cases (l : Layout) (address : Nat) :
    (∃ n ∈ l.arena, inArena n address = true ∧ l.arena.find? (fun n => inArena n address) = some n) ∨
    ((∀ n ∈ l.arena, ¬ inArena n address = true) ∧ l.arena.find? (fun n => inArena n address) = none) := by
  cases hf : l.arena.find? fun n => inArena n address with
  | none => exact .inr ⟨List.find?_eq_none.mp hf, rfl⟩
  | some n =>
    have hp := List.find?_some hf
    exact .inl ⟨n, List.mem_of_find?_eq_some hf, hp, rfl⟩

theorem no_memory_ne : ERR_NO_MEMORY ≠ NO_ERROR := by decide

theorem not_found_ne : ERR_NOT_FOUND ≠ NO_ERROR := by decide

/-- **`novm_alloc_specific_pages`** takes the run if it is free, or changes nothing -/
theorem Inv.specific (hi : Inv s) (address pages : Nat) (hw : WithinArena s (.allocSpecific address pages)) :
    (∃ n ∈ s.layout.arena, inArena n address = true ∧ s.FreeRun n (pageIndex n address) pages ∧
      novmAllocSpecificPages s.layout.arena s.mem address pages =
        (memset s.mem (n.map + pageIndex n address) 1 pages, NO_ERROR,
          List.range' (n.map + pageIndex n address) pages)) ∨
    ((novmAllocSpecificPages s.layout.arena s.mem address pages).1 = s.mem ∧
      (novmAllocSpecificPages s.layout.arena s.mem address pages).2.1 ≠ NO_ERROR) := by
  unfold novmAllocSpecificPages
  rcases find_cases s.layout address with ⟨n, hn, hin, hf⟩ | ⟨-, hf⟩
  · rw [hf]
    dsimp only
    cases hu : FirstFit.firstUsed (fun i => s.mem (n.map + i) != 0) (pageIndex n address) pages 0 with
    | none => exact .inl ⟨n, hn, hin, (hi.firstUsed_none_iff hn (hw n hn hin)).mp hu, rfl⟩
    | some k => exact .inr ⟨rfl, no_memory_ne⟩
  · rw [hf]
    exact .inr ⟨rfl, not_found_ne⟩

/-- **Every request that is within its arena keeps the maps.** -/
theorem Inv.step (hi : Inv s) (op : NovmOp) (hw : WithinArena s op) : Inv (novmStep s op) := by
  cases op with
  | alloc pages bitmap =>
    unfold novmStep novmAllocPages
    dsimp only
    rcases hi.walk pages bitmap s.layout.arena 0 fun _ h => h with ⟨hpos, j, n, i, hj, -, hfree, hr⟩ | ⟨hr, -⟩
    · have hn := List.mem_of_getElem? hj
      obtain ⟨hin, hidx, hne⟩ := (s.layout.sized n hn).address (show i < n.pages by have := hfree.1; omega)
      rw [hr]
      dsimp only
      rw [if_neg hne, grantOf_eq hn hin, hidx]
      exact hi.took hn hfree
    · rw [hr]
      exact hi
  | allocSpecific address pages =>
    unfold novmStep
    dsimp only
    rcases hi.specific address pages hw with ⟨n, hn, hin, hfree, hr⟩ | ⟨hmem, hret⟩
    · rw [hr]
      dsimp only
      rw [if_pos rfl, grantOf_eq hn hin]
      exact hi.took hn hfree
    · rw [hmem, if_neg hret]
      exact hi
  | free address pages =>
    unfold novmStep novmFreePages
    dsimp only
    rcases find_cases s.layout address with ⟨n, hn, hin, hf⟩ | ⟨-, hf⟩
    · rw [grantOf_eq hn hin, hf]
      exact hi.gave hn (hw n hn hin)
    · unfold grantOf
      rw [hf]
      exact hi

theorem inv_init (h : NovmInit s) : Inv s := by
  obtain ⟨hclear, hnone⟩ := h
  refine ⟨⟨?_, ?_⟩, fun n hn i hlt => ?_⟩
  · rw [hnone]
    exact List.Pairwise.nil
  · intro g hg
    rw [hnone] at hg
    cases hg
  · constructor
    · exact fun h => absurd (hclear n hn i hlt) h
    · rintro ⟨g, hg, -⟩
      rw [hnone] at hg
      cases hg

theorem run_inv (hr : novmSys.Run WithinArena s) : Inv s := by
  refine hr.invariant (I := Inv) (fun s h0 => inv_init h0) fun s op s' h hw hs => ?_
  cases hs
  exact h.step op hw

end

/-! ## the requests -/

section
variable {s : State}

theorem Inv.served_alloc (hi : Inv s) (pages : Nat) (bitmap : BitVec 32) : s.Served (.alloc pages bitmap) := by
  show (allocFrom s.mem pages bitmap 0 s.layout.arena).2 ≠ 0 ↔ _
  rcases hi.walk pages bitmap s.layout.arena 0 fun _ h => h with ⟨hpos, j, n, i, hj, hbit, hfree, hr⟩ | ⟨hr, hnone⟩
  · rw [Nat.zero_add] at hbit
    have hn := List.mem_of_getElem? hj
    have hne := ((s.layout.sized n hn).address (show i < n.pages by have := hfree.1; omega)).2.2
    rw [hr]
    exact ⟨fun _ => ⟨hpos, j, n, hj, hbit, i, hfree⟩, fun _ => hne⟩
  · rw [hr]
    refine ⟨fun h => absurd rfl h, ?_⟩
    rintro ⟨hpos, j, n, hj, hbit, hfree⟩
    exact absurd ⟨hpos, hfree⟩ (hnone j n hj (by rwa [Nat.zero_add]))

/-- the only arena of a request -/
theorem inside_iff {n : NovmArena} (hn : n ∈ s.layout.arena) {address pages : Nat} (hin : inArena n address = true) :
    s.Inside address pages ↔ pageIndex n address + pages ≤ n.pages := by
  constructor
  · rintro ⟨m, hm, hinm, hfit⟩
    rw [s.layout.same hn hm hin hinm]
    exact hfit
  · exact fun h => ⟨n, hn, hin, h⟩

theorem within_iff {n : NovmArena} (hn : n ∈ s.layout.arena) {address pages : Nat} (hin : inArena n address = true) :
    (∀ m ∈ s.layout.arena, inArena m address = true → pageIndex m address + pages ≤ m.pages) ↔
      pageIndex n address + pages ≤ n.pages := by
  constructor
  · exact fun h => h n hn hin
  · intro h m hm hinm
    rw [s.layout.same hm hn hinm hin]
    exact h

/-- a scan or a write that starts at the page of the address touches its map byte -/
theorem not_untouched {n : NovmArena} (hn : n ∈ s.layout.arena) {address : Nat} (hin : inArena n address = true)
    (len : Nat) : ¬ s.Untouched (List.range' (n.map + pageIndex n address) (len + 1)) := by
  intro h
  apply h n hn _ ((s.layout.sized n hn).index_lt hin)
  exact List.mem_range'_1.mpr ⟨le_refl _, by omega⟩

theorem Inv.served_specific (hi : Inv s) (address pages : Nat) :
    s.Served (.allocSpecific address pages) ↔ WithinArena s (.allocSpecific address pages) := by
  unfold State.Served WithinArena novmAllocSpecificPages
  dsimp only
  rcases find_cases s.layout address with ⟨n, hn, hin, hf⟩ | ⟨hno, hf⟩
  · rw [within_iff hn hin, inside_iff hn hin, hf]
    dsimp only
    have hrun : (∃ m ∈ s.layout.arena, inArena m address = true ∧ s.FreeRun m (pageIndex m address) pages) ↔
        s.FreeRun n (pageIndex n address) pages := by
      constructor
      · rintro ⟨m, hm, hinm, h⟩
        rwa [s.layout.same hn hm hin hinm]
      · exact fun h => ⟨n, hn, hin, h⟩
    rw [hrun]
    by_cases hfit : pageIndex n address + pages ≤ n.pages
    · rw [← hi.firstUsed_none_iff hn hfit]
      refine ⟨fun _ => hfit, fun _ => ⟨?_, fun h => absurd hfit h⟩⟩
      cases FirstFit.firstUsed (fun i => s.mem (n.map + i) != 0) (pageIndex n address) pages 0 with
      | none => exact ⟨fun _ => rfl, fun _ => rfl⟩
      | some k => exact ⟨fun h => absurd h no_memory_ne, fun h => by cases h⟩
    · refine ⟨fun h => absurd (h.2 hfit).2 ?_, fun h => absurd h hfit⟩
      have hlt := (s.layout.sized n hn).index_lt hin
      cases FirstFit.firstUsed (fun i => s.mem (n.map + i) != 0) (pageIndex n address) pages 0 with
      | none =>
        dsimp only
        rw [show pages = pages - 1 + 1 by omega]
        exact not_untouched hn hin (pages - 1)
      | some k => exact not_untouched hn hin k
  · rw [hf]
    refine ⟨fun _ n hn hin => absurd hin (hno n hn), fun _ => ⟨⟨fun h => absurd h not_found_ne, ?_⟩, fun _ => ?_⟩⟩
    · rintro ⟨n, hn, hin, -⟩
      exact absurd hin (hno n hn)
    · exact ⟨not_found_ne, fun n _ i _ h => by cases h⟩

theorem Inv.served_free (address pages : Nat) :
    s.Served (.free address pages) ↔ WithinArena s (.free address pages) := by
  unfold State.Served WithinArena novmFreePages
  dsimp only
  rcases find_cases s.layout address with ⟨n, hn, hin, hf⟩ | ⟨hno, hf⟩
  · rw [within_iff hn hin, inside_iff hn hin, hf]
    dsimp only
    constructor
    · intro h
      by_contra hfit
      have hlt := (s.layout.sized n hn).index_lt hin
      have ht := h hfit
      rw [show pages = pages - 1 + 1 by omega] at ht
      exact not_untouched hn hin (pages - 1) ht
    · exact fun h hfit => absurd h hfit
  · rw [hf]
    refine ⟨fun _ n hn hin => absurd hin (hno n hn), fun _ _ n _ i _ h => ?_⟩
    cases h

end

/-- **The page maps.**  While every specific request and every free ends in the arena in which it starts, the grants
are disjoint and each lies in one arena; and in every such state a request is served as promised exactly if it is
like that itself. -/
theorem novm_page_map {s : State} (hr : novmSys.Run WithinArena s) :
    s.Disjoint ∧ ∀ op, s.Served op ↔ WithinArena s op := by
  have hi := run_inv hr
  refine ⟨hi.toDisjoint, fun op => ?_⟩
  cases op with
  | alloc pages bitmap => exact ⟨fun _ => trivial, fun _ => hi.served_alloc pages bitmap⟩
  | allocSpecific address pages => exact hi.served_specific address pages
  | free address pages => exact Inv.served_free address pages

/-- two arenas of two pages; their maps are one behind the other, as two arenas from one static array -/
def lowArena : NovmArena := ⟨2, 0x1000, 0x10000, 0x2000, 0, 0⟩

def highArena : NovmArena := ⟨2, 0x1002, 0x20000, 0x2000, 0, 0⟩

theorem lowHigh_apart : Apart lowArena highArena := by
  refine ⟨fun i hi j hj => ?_, fun p h1 h2 => ?_⟩
  · unfold lowArena highArena at *
    dsimp only at *
    lia
  · have h1 := inArena_iff.mp h1
    have h2 := inArena_iff.mp h2
    unfold lowArena highArena at *
    dsimp only at *
    lia

theorem twoArenas_sized : ∀ n ∈ [lowArena, highArena], Sized n := by
  intro n hn
  rcases List.mem_cons.mp hn with rfl | hn
  · exact ⟨rfl, by decide, .inr (by decide)⟩
  · rw [List.mem_singleton.mp hn]
    exact ⟨rfl, by decide, .inr (by decide)⟩

theorem twoArenas_apart : ∀ n ∈ [lowArena, highArena], ∀ m ∈ [lowArena, highArena], n ≠ m → Apart n m := by
  intro n hn m hm hne
  rcases List.mem_cons.mp hn with rfl | hn
  · rcases List.mem_cons.mp hm with rfl | hm
    · exact absurd rfl hne
    · rw [List.mem_singleton.mp hm]
      exact lowHigh_apart
  · rcases List.mem_cons.mp hm with rfl | hm
    · rw [List.mem_singleton.mp hn]
      exact lowHigh_apart.symm
    · exact absurd ((List.mem_singleton.mp hn).trans (List.mem_singleton.mp hm).symm) hne

def twoArenas : Layout := ⟨[lowArena, highArena], twoArenas_sized, twoArenas_apart⟩

def twoArenasState : State := ⟨twoArenas, fun _ => 0, []⟩

theorem twoArenas_run : novmSys.Run WithinArena twoArenasState := .init ⟨fun _ _ _ _ => rfl, rfl⟩

theorem novm_page_map_two : twoArenasState.Disjoint ∧
    ∀ op, twoArenasState.Served op ↔ WithinArena twoArenasState op := novm_page_map twoArenas_run

/-- a request for four pages from the second page of the first arena on is granted -/
theorem novm_past_the_map : ¬ ∀ s : State, novmSys.Reach s → s.Disjoint ∧ ∀ op, s.Served op := by
  intro h
  have hserved := (h twoArenasState twoArenas_run.reach).2 (.allocSpecific 0x11000 4)
  have hout : ¬ twoArenasState.Inside 0x11000 4 := by
    rintro ⟨n, hn, hin, hfit⟩
    have hlow : n = lowArena :=
      twoArenas.same hn List.mem_cons_self hin (show inArena lowArena 0x11000 = true by decide)
    rw [hlow] at hfit
    exact absurd hfit (by decide)
  exact (hserved.2 hout).1 rfl

end Novm
end LkHv
