import LkHv.Kernel.Err
import LkHv.Kernel.Pmm
import LkHv.Lib.FirstFit

/-!
# Pages without a kernel VM (`kernel/novm/novm.c`)

An arena has a byte of its page map for each of its pages; the maps are in memory, the map of an arena in front of its
pages or in a static array.

* `NovmArena`, `inArena`, `novmInitHelper`, `novmAllocHelper`, `novmAllocPages`, `novmAllocSpecificPages`,
  `novmFreePages`   the source's; the last two come with the map bytes they touch;
* `Sized`, `Layout`        arenas as boot leaves them;
* `novmInitHelper_ready`, `boot_ready`   what the set-up of regions gives.
-/

namespace LkHv
namespace Novm

abbrev Byte := BitVec 8

/-- `struct novm_arena` -/
structure NovmArena where
  pages : Nat
  /-- the address of the page map -/
  map : Nat
  base : Nat
  size : Nat
  unalignedArea : Nat
  unalignedSize : Nat
deriving DecidableEq

def MINIMUM_USEFUL_UNALIGNED_SIZE : Nat := 64

/-- `in_arena` -/
def inArena (n : NovmArena) (p : Nat) : Bool :=
  if n.size = 0 then false else decide (n.base ≤ p ∧ p < n.base + n.size)

/-- `memset` -/
def memset (mem : Nat → Byte) (start : Nat) (c : Byte) (len : Nat) : Nat → Byte :=
  fun a => if start ≤ a ∧ a < start + len then c else mem a

/-- the pages that the map takes out of the arena: `start`, `size` and `map_size` behind the loop -/
def grabMap (arenaStart start size : Nat) : Nat → Nat × Nat × Nat
  | 0 => (start, size, 0)
  | mapSize + 1 =>
    if start - arenaStart < mapSize + 1 then grabMap arenaStart (start + PAGE_SIZE) (size - PAGE_SIZE) mapSize
    else (start, size, mapSize + 1)

/-- `novm_init_helper`; a default map is given by its address and size -/
def novmInitHelper (mem : Nat → Byte) (n : NovmArena) (arenaStart arenaSize : Nat) (defaultMap : Option (Nat × Nat)) :
    (Nat → Byte) × NovmArena :=
  let start := roundup arenaStart PAGE_SIZE
  let size := (arenaStart + arenaSize) / PAGE_SIZE * PAGE_SIZE - start
  let mapSize := size >>> PAGE_SIZE_SHIFT
  match defaultMap.filter fun d => ¬ d.2 < mapSize with
  | none =>
    let r := grabMap arenaStart start size mapSize
    let behind := arenaStart + roundup r.2.2 4
    let u := if behind + MINIMUM_USEFUL_UNALIGNED_SIZE ≤ r.1 then (behind, r.1 - behind)
      else (n.unalignedArea, n.unalignedSize)
    (memset mem arenaStart 0 r.2.2, ⟨r.2.2, arenaStart, r.1, r.2.1, u.1, u.2⟩)
  | some d =>
    let u := if MINIMUM_USEFUL_UNALIGNED_SIZE ≤ start - arenaStart then (arenaStart, start - arenaStart)
      else (n.unalignedArea, n.unalignedSize)
    (memset mem d.1 0 mapSize, ⟨mapSize, d.1, start, size, u.1, u.2⟩)

/-- `novm_alloc_helper`; 0 for `NULL` -/
def novmAllocHelper (mem : Nat → Byte) (n : NovmArena) (pages : Nat) : (Nat → Byte) × Nat :=
  if pages = 0 ∨ n.pages < pages then (mem, 0)
  else
    match FirstFit.firstFit (fun i => mem (n.map + i) != 0) pages (n.pages - pages) 0 with
    | some i => (memset mem (n.map + i) 1 pages, n.base + i <<< PAGE_SIZE_SHIFT)
    | none => (mem, 0)

/-- the loop of `novm_alloc_pages`, from arena `i` on -/
def allocFrom (mem : Nat → Byte) (pages : Nat) (arenaBitmap : BitVec 32) : Nat → List NovmArena → (Nat → Byte) × Nat
  | _, [] => (mem, 0)
  | i, n :: ns =>
    if arenaBitmap.getLsbD i then
      let r := novmAllocHelper mem n pages
      if r.2 ≠ 0 then r else allocFrom r.1 pages arenaBitmap (i + 1) ns
    else allocFrom mem pages arenaBitmap (i + 1) ns

/-- `novm_alloc_pages` -/
def novmAllocPages (arena : List NovmArena) (mem : Nat → Byte) (pages : Nat) (arenaBitmap : BitVec 32) :
    (Nat → Byte) × Nat := allocFrom mem pages arenaBitmap 0 arena

/-- the page of an address in an arena -/
def pageIndex (n : NovmArena) (address : Nat) : Nat := (address - n.base) >>> PAGE_SIZE_SHIFT

/-- `novm_free_pages`, and the map bytes that it writes -/
def novmFreePages (arena : List NovmArena) (mem : Nat → Byte) (address pages : Nat) : (Nat → Byte) × List Nat :=
  match arena.find? fun n => inArena n address with
  | none => (mem, [])
  | some n =>
    let index := pageIndex n address
    (memset mem (n.map + index) 0 pages, List.range' (n.map + index) pages)

/-- `novm_alloc_specific_pages`, and the map bytes that it reads or writes -/
def novmAllocSpecificPages (arena : List NovmArena) (mem : Nat → Byte) (address pages : Nat) :
    (Nat → Byte) × Int × List Nat :=
  match arena.find? fun n => inArena n address with
  | none => (mem, ERR_NOT_FOUND, [])
  | some n =>
    let index := pageIndex n address
    match FirstFit.firstUsed (fun i => mem (n.map + i) != 0) index pages 0 with
    | some i => (mem, ERR_NO_MEMORY, List.range' (n.map + index) (i + 1))
    | none => (memset mem (n.map + index) 1 pages, NO_ERROR, List.range' (n.map + index) pages)

/-! ## arenas as boot leaves them -/

/-- the numbers of an arena; one without pages was not set up -/
structure Sized (n : NovmArena) : Prop where
  size : n.size = n.pages * PAGE_SIZE
  bound : n.base + n.size < 2 ^ 64
  pos : n.pages = 0 ∨ 0 < n.base

/-- two arenas share no map byte and no address -/
structure Apart (n m : NovmArena) : Prop where
  map : ∀ i < n.pages, ∀ j < m.pages, n.map + i ≠ m.map + j
  area : ∀ p, inArena n p = true → inArena m p = true → False

/-- **The array of arenas**, `NOVM_MAX_ARENAS` of them -/
structure Layout where
  arena : List NovmArena
  sized : ∀ n ∈ arena, Sized n
  apart : ∀ n ∈ arena, ∀ m ∈ arena, n ≠ m → Apart n m

theorem inArena_iff {n : NovmArena} {p : Nat} : inArena n p = true ↔ n.base ≤ p ∧ p < n.base + n.size := by
  unfold inArena
  split
  · constructor
    · intro h
      cases h
    · intro h
      omega
  · exact decide_eq_true_iff

/-- an address is in at most one arena -/
theorem Layout.same (l : Layout) {n m : NovmArena} (hn : n ∈ l.arena) (hm : m ∈ l.arena) {p : Nat}
    (h1 : inArena n p = true) (h2 : inArena m p = true) : n = m := by
  by_contra hne
  exact (l.apart n hn m hm hne).area p h1 h2

theorem Layout.find_eq (l : Layout) {n : NovmArena} (hn : n ∈ l.arena) {p : Nat} (h : inArena n p = true) :
    l.arena.find? (fun n => inArena n p) = some n := by
  cases hf : l.arena.find? fun n => inArena n p with
  | none => exact absurd h (List.find?_eq_none.mp hf n hn)
  | some m =>
    have hp := List.find?_some hf
    rw [l.same (List.mem_of_find?_eq_some hf) hn hp h]

/-- the page of an address in an arena is one of its pages -/
theorem Sized.index_lt {n : NovmArena} (hs : Sized n) {p : Nat} (h : inArena n p = true) :
    pageIndex n p < n.pages := by
  obtain ⟨h1, h2⟩ := inArena_iff.mp h
  have hsize := hs.size
  unfold pageIndex PAGE_SIZE_SHIFT PAGE_SIZE at *
  rw [Nat.shiftRight_eq_div_pow]
  omega

/-- the address of a page, and back -/
theorem Sized.address {n : NovmArena} (hs : Sized n) {i : Nat} (h : i < n.pages) :
    inArena n (n.base + i <<< PAGE_SIZE_SHIFT) = true ∧ pageIndex n (n.base + i <<< PAGE_SIZE_SHIFT) = i ∧
      n.base + i <<< PAGE_SIZE_SHIFT ≠ 0 := by
  have hsize := hs.size
  have hpos := hs.pos
  unfold pageIndex PAGE_SIZE_SHIFT PAGE_SIZE at *
  rw [inArena_iff, Nat.shiftLeft_eq, Nat.shiftRight_eq_div_pow]
  refine ⟨⟨by omega, by omega⟩, by omega, by omega⟩

/-! ## the set-up of an arena -/

theorem memset_other {mem : Nat → Byte} {start len a : Nat} {c : Byte} (h : ¬ (start ≤ a ∧ a < start + len)) :
    memset mem start c len a = mem a := if_neg h

theorem memset_get {mem : Nat → Byte} {start len i : Nat} {c : Byte} (h : i < len) :
    memset mem start c len (start + i) = c := if_pos ⟨by omega, by omega⟩

/-- a region for an arena: where it is, and the map it comes with -/
structure Region where
  start : Nat
  size : Nat
  map : Option (Nat × Nat)

/-- the addresses that a region has for itself -/
def Region.Owns (r : Region) (a : Nat) : Prop :=
  (r.start ≤ a ∧ a < r.start + r.size) ∨ ∃ d ∈ r.map, d.1 ≤ a ∧ a < d.1 + d.2

/-- a region that boot can hand over: it does not wrap, it has a page boundary, and it is not at address 0 with a map
of its own -/
structure Region.Valid (r : Region) : Prop where
  bound : r.start + r.size < 2 ^ 64
  page : roundup r.start PAGE_SIZE ≤ (r.start + r.size) / PAGE_SIZE * PAGE_SIZE
  pos : r.map = none ∨ 0 < r.start

/-- an arena of a region whose map is clear -/
structure Ready (r : Region) (mem : Nat → Byte) (n : NovmArena) : Prop where
  sized : Sized n
  map : ∀ i < n.pages, r.Owns (n.map + i) ∧ mem (n.map + i) = 0
  area : ∀ p, inArena n p = true → r.Owns p

/-- the loop keeps the end of the pages, and stops when the map fits in front of them -/
theorem grabMap_spec (arenaStart start : Nat) {size mapSize : Nat} (h : size = mapSize * PAGE_SIZE) :
    let r := grabMap arenaStart start size mapSize
    r.1 + r.2.1 = start + size ∧ r.2.1 = r.2.2 * PAGE_SIZE ∧ start ≤ r.1 ∧ r.2.2 ≤ r.1 - arenaStart := by
  induction mapSize generalizing start size with
  | zero => exact ⟨rfl, h, le_refl _, Nat.zero_le _⟩
  | succ mapSize ih =>
    unfold grabMap
    split
    · obtain ⟨h1, h2, h3, h4⟩ := ih (start + PAGE_SIZE)
        (show size - PAGE_SIZE = mapSize * PAGE_SIZE by unfold PAGE_SIZE at *; omega)
      refine ⟨?_, h2, by omega, h4⟩
      rw [h1]
      unfold PAGE_SIZE at *
      omega
    · rename_i hfit
      exact ⟨rfl, h, le_refl _, not_lt.mp hfit⟩

/-- **The set-up of a region** -/
theorem novmInitHelper_ready {r : Region} (hr : r.Valid) (mem : Nat → Byte) (n : NovmArena) :
    Ready r (novmInitHelper mem n r.start r.size r.map).1 (novmInitHelper mem n r.start r.size r.map).2 ∧
      ∀ a, ¬ r.Owns a → (novmInitHelper mem n r.start r.size r.map).1 a = mem a := by
  have hstart : r.start ≤ roundup r.start PAGE_SIZE := by
    unfold roundup PAGE_SIZE
    omega
  have hpage := hr.page
  have hbound := hr.bound
  have hend : (r.start + r.size) / PAGE_SIZE * PAGE_SIZE ≤ r.start + r.size := Nat.div_mul_le_self _ _
  have hsize : (r.start + r.size) / PAGE_SIZE * PAGE_SIZE - roundup r.start PAGE_SIZE =
      (((r.start + r.size) / PAGE_SIZE * PAGE_SIZE - roundup r.start PAGE_SIZE) >>> PAGE_SIZE_SHIFT) * PAGE_SIZE := by
    rw [Nat.shiftRight_eq_div_pow]
    unfold roundup PAGE_SIZE PAGE_SIZE_SHIFT
    omega
  unfold novmInitHelper
  dsimp only
  generalize hst : roundup r.start PAGE_SIZE = start at *
  generalize hsz : (r.start + r.size) / PAGE_SIZE * PAGE_SIZE - start = size at *
  generalize hms : size >>> PAGE_SIZE_SHIFT = mapSize at *
  cases hd : r.map.filter fun d => ¬ d.2 < mapSize with
  | none =>
    dsimp only
    obtain ⟨h1, h2, h3, h4⟩ := grabMap_spec r.start start hsize
    generalize grabMap r.start start size mapSize = g at *
    obtain ⟨gstart, gsize, gmap⟩ := g
    dsimp only at *
    refine ⟨⟨⟨h2, by dsimp only; omega, by dsimp only; omega⟩, fun i hi => ?_, fun p hp => ?_⟩, fun a ha => ?_⟩
    · dsimp only at hi ⊢
      exact ⟨.inl ⟨by omega, by omega⟩, memset_get hi⟩
    · have hp' := inArena_iff.mp hp
      dsimp only at hp'
      exact .inl ⟨by omega, by omega⟩
    · exact memset_other fun h => ha (.inl ⟨by omega, by omega⟩)
  | some d =>
    dsimp only
    obtain ⟨hmem, hlen⟩ := Option.filter_eq_some_iff.mp hd
    have hle : mapSize ≤ d.2 := not_lt.mp (of_decide_eq_true hlen)
    have hpos : 0 < r.start := by
      rcases hr.pos with h0 | h0
      · rw [h0] at hmem
        cases hmem
      · exact h0
    refine ⟨⟨⟨hsize, by dsimp only; omega, by dsimp only; omega⟩, fun i hi => ?_, fun p hp => ?_⟩, fun a ha => ?_⟩
    · dsimp only at hi ⊢
      exact ⟨.inr ⟨d, hmem, by omega, by omega⟩, memset_get hi⟩
    · have hp' := inArena_iff.mp hp
      dsimp only at hp'
      exact .inl ⟨by omega, by omega⟩
    · exact memset_other fun h => ha (.inr ⟨d, hmem, by omega, by omega⟩)

/-! ## the array of arenas -/

/-- an entry that was not set up -/
def unused : NovmArena := ⟨0, 0, 0, 0, 0, 0⟩

/-- the set-up of one region after the other -/
def boot : (Nat → Byte) → List Region → (Nat → Byte) × List NovmArena
  | mem, [] => (mem, [])
  | mem, r :: rs =>
    let x := novmInitHelper mem unused r.start r.size r.map
    let y := boot x.1 rs
    (y.1, x.2 :: y.2)

theorem boot_other : ∀ {rs : List Region} {mem : Nat → Byte} {a : Nat}, (∀ r ∈ rs, r.Valid ∧ ¬ r.Owns a) →
    (boot mem rs).1 a = mem a := by
  intro rs
  induction rs with
  | nil => exact fun _ => rfl
  | cons r rs ih =>
    intro mem a h
    obtain ⟨hr, ha⟩ := h r List.mem_cons_self
    unfold boot
    dsimp only
    rw [ih fun q hq => h q (List.mem_cons_of_mem _ hq)]
    exact (novmInitHelper_ready hr mem unused).2 a ha

/-- every arena comes from a region, and its map is clear in the end -/
theorem boot_ready : ∀ {rs : List Region} {mem : Nat → Byte} {n : NovmArena}, (∀ r ∈ rs, r.Valid) →
    rs.Pairwise (fun r q => ∀ a, r.Owns a → ¬ q.Owns a) → n ∈ (boot mem rs).2 →
    ∃ r ∈ rs, Ready r (boot mem rs).1 n := by
  intro rs
  induction rs with
  | nil =>
    intro mem n _ _ hn
    cases hn
  | cons r rs ih =>
    intro mem n hv hp hn
    obtain ⟨hdis, hp⟩ := List.pairwise_cons.mp hp
    rcases List.mem_cons.mp hn with rfl | hn
    · obtain ⟨hready, -⟩ := novmInitHelper_ready (hv r List.mem_cons_self) mem unused
      refine ⟨r, List.mem_cons_self, hready.sized, fun i hi => ?_, hready.area⟩
      obtain ⟨howns, hclear⟩ := hready.map i hi
      refine ⟨howns, ?_⟩
      rw [← hclear]
      exact boot_other fun q hq => ⟨hv q (List.mem_cons_of_mem _ hq), hdis q hq _ howns⟩
    · obtain ⟨q, hq, hready⟩ := ih (fun q hq => hv q (List.mem_cons_of_mem _ hq)) hp hn
      exact ⟨q, List.mem_cons_of_mem _ hq, hready⟩

/-- arenas of regions that share no address -/
theorem Ready.apart {r q : Region} {mem mem' : Nat → Byte} {n m : NovmArena} (hn : Ready r mem n)
    (hm : Ready q mem' m) (hd : ∀ a, r.Owns a → ¬ q.Owns a) : Apart n m := by
  refine ⟨fun i hi j hj he => ?_, fun p h1 h2 => hd p (hn.area p h1) (hm.area p h2)⟩
  apply hd _ (hn.map i hi).1
  rw [he]
  exact (hm.map j hj).1

theorem Apart.symm {n m : NovmArena} (h : Apart n m) : Apart m n :=
  ⟨fun i hi j hj he => h.map j hj i hi he.symm, fun p h1 h2 => h.area p h2 h1⟩

theorem boot_apart : ∀ {rs : List Region} {mem : Nat → Byte}, (∀ r ∈ rs, r.Valid) →
    rs.Pairwise (fun r q => ∀ a, r.Owns a → ¬ q.Owns a) →
    ∀ n ∈ (boot mem rs).2, ∀ m ∈ (boot mem rs).2, n ≠ m → Apart n m := by
  intro rs
  induction rs with
  | nil =>
    intro mem _ _ n hn
    cases hn
  | cons r rs ih =>
    intro mem hv hp n hn m hm hne
    obtain ⟨hdis, hp⟩ := List.pairwise_cons.mp hp
    have hvs : ∀ q ∈ rs, q.Valid := fun q hq => hv q (List.mem_cons_of_mem _ hq)
    obtain ⟨hhead, -⟩ := novmInitHelper_ready (hv r List.mem_cons_self) mem unused
    rcases List.mem_cons.mp hn with rfl | hn
    · rcases List.mem_cons.mp hm with rfl | hm
      · exact absurd rfl hne
      · obtain ⟨q, hq, hready⟩ := boot_ready hvs hp hm
        exact hhead.apart hready (hdis q hq)
    · rcases List.mem_cons.mp hm with rfl | hm
      · obtain ⟨q, hq, hready⟩ := boot_ready hvs hp hn
        exact (hhead.apart hready (hdis q hq)).symm
      · exact ih hvs hp n hn m hm hne

/-- **The layout of boot** for regions that share no address -/
def bootLayout (mem : Nat → Byte) (rs : List Region) (hv : ∀ r ∈ rs, r.Valid)
    (hp : rs.Pairwise fun r q => ∀ a, r.Owns a → ¬ q.Owns a) : Layout where
  arena := (boot mem rs).2
  sized := fun _ hn => (boot_ready hv hp hn).elim fun _ h => h.2.sized
  apart := boot_apart hv hp

end Novm
end LkHv
