import LkHv.Kernel.Pmm
import LkHv.Kernel.Word

/-!
# Contiguous runs on machine words

`pmm_alloc_contiguous` with its `uint` indices: `start + count` and the next aligned index wrap, a wrapped sum
passes the test of the loop, and the loop then reads `page_array` from `start` on until a page in use stops it.

* `checkRun`, `searchRun`, `searchArena`, `contiguousWalk`, `pmmAllocContiguous`   the source's;
* `IsRun`           an aligned run of free pages of an arena;
* `RunExact`        the claim: the first such run, or nothing changes;
* `SafeArena`, `SafeWalk`   neither the sum nor the next index wraps where it matters;
* `pmm_alloc_contiguous_exact`   the two are the same;
* `pmmAllocContiguous_number`    without a wrap, the call on numbers of `Kernel.Pmm`.
-/

namespace LkHv
namespace PmmRun

/-- how the search of an arena ends -/
inductive RunEnd
  | found (start : Nat)
  | notFound
  /-- a page that is not in `page_array` is read -/
  | outside (index : Nat)
deriving DecidableEq

/-- the pages of a run one after the other: the first that is in use or not there -/
def checkRun (nonfree : Nat → Bool) (pages start : Nat) : Nat → Nat → Option Nat
  | 0, _ => none
  | n + 1, i =>
    if pages ≤ start + i ∨ nonfree (start + i) = true then some i else checkRun nonfree pages start n (i + 1)

/-- the next index, a `uint` -/
def nextStart (start alignedOffset i align : Nat) : Nat :=
  (roundup64 (add32 (add32 (sub32 start alignedOffset) i) 1) align + alignedOffset) % 2 ^ 32

/-- the loop of an arena, `retry` included -/
def searchRun (nonfree : Nat → Bool) (pages count align alignedOffset : Nat) : Nat → Nat → Option RunEnd
  | 0, _ => none
  | fuel + 1, start =>
    if start < pages ∧ add32 start count ≤ pages then
      match checkRun nonfree pages start count 0 with
      | none => some (.found start)
      | some i =>
        if pages ≤ start + i then some (.outside (start + i))
        else searchRun nonfree pages count align alignedOffset fuel (nextStart start alignedOffset i align)
    else some .notFound

/-- `rounded_base` -/
def roundedBase (a : PmmArena) (alignmentLog2 : Nat) : Nat := roundup64 a.base (shl1 alignmentLog2)

/-- `aligned_offset`, a `uint` -/
def alignedOffset (a : PmmArena) (alignmentLog2 : Nat) : Nat :=
  (roundedBase a alignmentLog2 - a.base) / PAGE_SIZE % 2 ^ 32

/-- the rounded base is in the arena -/
def Reaches (a : PmmArena) (alignmentLog2 : Nat) : Prop :=
  ¬ (roundedBase a alignmentLog2 < a.base ∨ last64 a.base a.size < roundedBase a alignmentLog2)

instance (a : PmmArena) (k : Nat) : Decidable (Reaches a k) := inferInstanceAs (Decidable (¬ _))

/-- the body of the walk for one arena -/
def searchArena (nonfree : Nat → Bool) (count alignmentLog2 fuel : Nat) (a : PmmArena) : Option RunEnd :=
  if Reaches a alignmentLog2 then
    searchRun (fun i => nonfree (a.basePfn + i)) a.pages count (shl1 (alignmentLog2 - PAGE_SIZE_SHIFT))
      (alignedOffset a alignmentLog2) fuel (alignedOffset a alignmentLog2)
  else some .notFound

/-- the walk over the arenas; a run comes back by its first frame -/
def contiguousWalk (nonfree : Nat → Bool) (count alignmentLog2 fuel : Nat) :
    List PmmArena → Option (List PmmArena × RunEnd)
  | [] => some ([], .notFound)
  | a :: as =>
    match if a.kmap then searchArena nonfree count alignmentLog2 fuel a else some .notFound with
    | none => none
    | some (.found start) =>
      let p := a.basePfn + start
      some ({ a with freeList := a.freeList.filter fun q => ¬ (p ≤ q ∧ q < p + count) } :: as, .found p)
    | some (.outside i) => some (a :: as, .outside i)
    | some .notFound => (contiguousWalk nonfree count alignmentLog2 fuel as).map fun r => (a :: r.1, r.2)

/-- `none` for a loop that has not ended yet; the function returns `count` for a run, and 0 if there is none -/
def pmmAllocContiguous (s : Pmm) (count alignmentLog2 fuel : Nat) : Option (Pmm × RunEnd) :=
  if count = 0 then some (s, .notFound)
  else
    (contiguousWalk s.nonfree count (max alignmentLog2 PAGE_SIZE_SHIFT) fuel s.arenaList).map fun r =>
      match r.2 with
      | .found p => ({ s with arenaList := r.1, nonfree := setNonfree s.nonfree (List.range' p count) }, .found p)
      | e => ({ s with refused := s.refused + 1 }, e)

/-! ## the law -/

/-- what `pmm_add_arena` asks of an arena; its pages are counted by a `uint` with one bit to spare -/
structure Sized (a : PmmArena) : Prop where
  base : PAGE_SIZE ∣ a.base
  size : PAGE_SIZE ∣ a.size
  pos : 0 < a.size
  bound : a.base + a.size ≤ 2 ^ 64
  pages : a.pages ≤ 2 ^ 31

/-- an aligned run of free pages of the arena -/
def IsRun (nonfree : Nat → Bool) (count alignmentLog2 : Nat) (a : PmmArena) (p : Nat) : Prop :=
  2 ^ alignmentLog2 ∣ p * PAGE_SIZE ∧ ∀ q, p ≤ q → q < p + count → a.Has q ∧ nonfree q = false

/-- **The claim**: the call ends with a run that it takes out of the free lists, or there is none and nothing
changes. -/
def RunExact (s : Pmm) (count alignmentLog2 : Nat) : Prop :=
  ∃ fuel s' e, pmmAllocContiguous s count alignmentLog2 fuel = some (s', e) ∧ match e with
    | .found p => 0 < count ∧
        (∃ a ∈ s.arenaList, a.kmap = true ∧ IsRun s.nonfree count (max alignmentLog2 PAGE_SIZE_SHIFT) a p) ∧
        Took s.nonfree s.arenaList s'.arenaList (List.range' p count) ∧
        s'.nonfree = setNonfree s.nonfree (List.range' p count)
    | .notFound => s'.arenaList = s.arenaList ∧ s'.nonfree = s.nonfree ∧ (count = 0 ∨
        ∀ a ∈ s.arenaList, a.kmap = true → ∀ p, ¬ IsRun s.nonfree count (max alignmentLog2 PAGE_SIZE_SHIFT) a p)
    | .outside _ => False

/-- all pages from `start` to the end of the arena are free -/
def FreeTail (nonfree : Nat → Bool) (a : PmmArena) (start : Nat) : Prop :=
  ∀ i, start ≤ i → i < a.pages → nonfree (a.basePfn + i) = false

/-- **The condition for an arena.**  `count` added to the first aligned index does not wrap, and then either the
next index does not wrap or it is not asked for; or it wraps, and behind each aligned index a page in use stops the
loop. -/
def SafeArena (nonfree : Nat → Bool) (count alignmentLog2 : Nat) (a : PmmArena) : Prop :=
  Reaches a alignmentLog2 → if alignedOffset a alignmentLog2 + count < 2 ^ 32 then
      alignmentLog2 < 44 ∨ a.pages < alignedOffset a alignmentLog2 + count ∨
        ∀ i < count, nonfree (a.basePfn + (alignedOffset a alignmentLog2 + i)) = false
    else
      alignmentLog2 < 44 ∧ ∀ start, alignedOffset a alignmentLog2 ≤ start → start < a.pages →
        2 ^ (alignmentLog2 - PAGE_SIZE_SHIFT) ∣ start - alignedOffset a alignmentLog2 → ¬ FreeTail nonfree a start

/-- the condition for the arenas up to the one with a run -/
def SafeWalk (nonfree : Nat → Bool) (count alignmentLog2 : Nat) : List PmmArena → Prop
  | [] => True
  | a :: as =>
    if a.kmap then
      SafeArena nonfree count alignmentLog2 a ∧
        ((∃ p, IsRun nonfree count alignmentLog2 a p) ∨ SafeWalk nonfree count alignmentLog2 as)
    else SafeWalk nonfree count alignmentLog2 as

/-! ## the pages of a run -/

section
variable {nonfree : Nat → Bool} {pages count align off start i : Nat}

theorem checkRun_none {n : Nat} (h : checkRun nonfree pages start n i = none) :
    ∀ j, i ≤ j → j < i + n → start + j < pages ∧ nonfree (start + j) = false := by
  induction n generalizing i with
  | zero =>
    intro j h1 h2
    omega
  | succ n ih =>
    intro j h1 h2
    rw [checkRun] at h
    split at h
    · cases h
    · rename_i hok
      rw [not_or, not_le, Bool.not_eq_true] at hok
      obtain rfl | hlt := Nat.eq_or_lt_of_le h1
      · exact hok
      · exact ih h j hlt (by omega)

theorem checkRun_some {n j : Nat} (h : checkRun nonfree pages start n i = some j) :
    i ≤ j ∧ j < i + n ∧ (pages ≤ start + j ∨ nonfree (start + j) = true) ∧
      ∀ l, i ≤ l → l < j → start + l < pages ∧ nonfree (start + l) = false := by
  induction n generalizing i with
  | zero => cases h
  | succ n ih =>
    rw [checkRun] at h
    split at h
    · rename_i hbad
      cases h
      exact ⟨le_refl _, by lia, hbad, fun l h1 h2 => by lia⟩
    · rename_i hok
      obtain ⟨h1, h2, h3, h4⟩ := ih h
      refine ⟨by lia, by lia, h3, fun l h5 h6 => ?_⟩
      rw [not_or, not_le, Bool.not_eq_true] at hok
      obtain rfl | hlt := Nat.eq_or_lt_of_le h5
      · exact hok
      · exact h4 l hlt h6

/-- an aligned run of free pages, by indices -/
def Fits (nonfree : Nat → Bool) (pages count align off start : Nat) : Prop :=
  off ≤ start ∧ align ∣ start - off ∧ start + count ≤ pages ∧ ∀ j < count, nonfree (start + j) = false

/-! ## the next index -/

/-- the first aligned index behind the page that stopped the run -/
structure IsNext (align off start i next : Nat) : Prop where
  behind : start + i < next
  aligned : align ∣ next - off
  first : ∀ t, off ≤ t → align ∣ t - off → start + i < t → next ≤ t

theorem nextStart_spec (hal : align ∣ 2 ^ 31) (hpages : pages ≤ 2 ^ 31) (hoff : off ≤ start)
    (hin : start + i < pages) : IsNext align off start i (nextStart start off i align) := by
  have hpos : 0 < align := Nat.pos_of_dvd_of_pos hal (Nat.two_pow_pos 31)
  have hle : align ≤ 2 ^ 31 := Nat.le_of_dvd (Nat.two_pow_pos 31) hal
  have hx : add32 (add32 (sub32 start off) i) 1 = start - off + i + 1 := by
    rw [sub32_of_le (by lia) hoff, add32_of_lt (show start - off + i < 2 ^ 32 by lia), add32_of_lt (by lia)]
  obtain ⟨h1, h2, h3⟩ := roundup64_spec (a := start - off + i + 1) hpos (by lia)
  have hround := h3 (2 ^ 31) hal (by lia)
  have hnext : nextStart start off i align = roundup64 (start - off + i + 1) align + off := by
    rw [nextStart, hx, Nat.mod_eq_of_lt (by lia)]
  rw [hnext]
  refine ⟨by lia, by rwa [Nat.add_sub_cancel], fun t h4 h5 h6 => ?_⟩
  have := h3 (t - off) h5 (by lia)
  lia

/-- **The next index wraps** to the first one -/
theorem nextStart_wraps {m : Nat} (hal : align = 2 ^ 32 * 2 ^ m) (hm : align ≤ 2 ^ 51) (hpages : pages ≤ 2 ^ 31)
    (hoff : off < pages) (hin : off + i < pages) : nextStart off off i align = off := by
  have hpow : 2 ^ 32 ≤ align := by
    rw [hal]
    exact Nat.le_mul_of_pos_right _ (Nat.two_pow_pos m)
  have hx : add32 (add32 (sub32 off off) i) 1 = i + 1 := by
    rw [sub32_of_le (by lia) (le_refl _), Nat.sub_self, add32_of_lt (show 0 + i < 2 ^ 32 by lia), Nat.zero_add,
      add32_of_lt (by lia)]
  obtain ⟨h1, h2, h3⟩ := roundup64_spec (a := i + 1) (b := align) (by lia) (by lia)
  have hround : roundup64 (i + 1) align = align :=
    Nat.le_antisymm (h3 align (Nat.dvd_refl _) (by lia)) (Nat.le_of_dvd (by lia) h1)
  rw [nextStart, hx, hround, hal, Nat.mul_add_mod, Nat.mod_eq_of_lt (by lia)]

/-! ## the loop -/

/-- the loop ends with the first run, or there is none -/
def Settles (nonfree : Nat → Bool) (pages count align off fuel start : Nat) : Prop :=
  (∃ t, searchRun nonfree pages count align off fuel start = some (.found t) ∧ Fits nonfree pages count align off t) ∨
  (searchRun nonfree pages count align off fuel start = some .notFound ∧ ∀ t, ¬ Fits nonfree pages count align off t)

/-- no run begins before `start` -/
def Behind (nonfree : Nat → Bool) (pages count align off start : Nat) : Prop :=
  ∀ t, Fits nonfree pages count align off t → start ≤ t

/-- a page in use moves the search behind it -/
theorem Behind.next {next : Nat} (h : Behind nonfree pages count align off start) (hi : i < count)
    (hused : nonfree (start + i) = true) (hn : IsNext align off start i next) :
    Behind nonfree pages count align off next := by
  intro t ht
  have hst := h t ht
  obtain ⟨h1, h2, -, h4⟩ := ht
  refine hn.first t h1 h2 ?_
  by_contra hlt
  -- the page would be in the run
  have := h4 (start + i - t) (by omega)
  rw [show t + (start + i - t) = start + i by omega, hused] at this
  cases this

/-- **No sum wraps**: the search is exact. -/
theorem searchRun_narrow (hal : align ∣ 2 ^ 31) (hpages : pages ≤ 2 ^ 31) (hpos : 0 < count) (hc : count ≤ pages) :
    ∀ {fuel start : Nat}, off ≤ start → align ∣ start - off → Behind nonfree pages count align off start →
      pages - start < fuel → Settles nonfree pages count align off fuel start := by
  intro fuel
  induction fuel with
  | zero =>
    intro start h1 h2 h3 h4
    lia
  | succ fuel ih =>
    intro start hoff hdvd hbehind hfuel
    unfold Settles
    rw [searchRun]
    by_cases hin : start < pages
    · rw [add32_of_lt (by lia)]
      by_cases hfit : start + count ≤ pages
      · rw [if_pos ⟨hin, hfit⟩]
        cases hcheck : checkRun nonfree pages start count 0 with
        | none =>
          refine .inl ⟨start, rfl, hoff, hdvd, hfit, fun j hj => ?_⟩
          exact (checkRun_none hcheck j (Nat.zero_le j) (by lia)).2
        | some i =>
          obtain ⟨-, hi, hbad, -⟩ := checkRun_some hcheck
          dsimp only
          rw [if_neg (by lia)]
          have hused := hbad.resolve_left (by lia)
          have hn := nextStart_spec hal hpages hoff (show start + i < pages by lia)
          have hbeh := hn.behind
          exact ih (by lia) hn.aligned (hbehind.next (by lia) hused hn) (by lia)
      · rw [if_neg fun hx => hfit hx.2]
        refine .inr ⟨rfl, fun t ht => ?_⟩
        have := hbehind t ht
        have := ht.2.2.1
        lia
    · rw [if_neg fun hx => hin hx.1]
      refine .inr ⟨rfl, fun t ht => ?_⟩
      have := hbehind t ht
      have := ht.2.2.1
      lia

/-- the sum does not wrap and is behind the end at once -/
theorem searchRun_over {fuel : Nat} (h32 : off + count < 2 ^ 32) (hover : pages < off + count) (hfuel : 0 < fuel) :
    Settles nonfree pages count align off fuel off := by
  obtain ⟨fuel, rfl⟩ := Nat.exists_eq_add_of_lt hfuel
  refine .inr ⟨?_, fun t ht => ?_⟩
  · rw [Nat.zero_add, searchRun, add32_of_lt h32]
    exact if_neg fun hx => by lia
  · have := ht.1
    have := ht.2.2.1
    lia

/-- the loop neither finds a run nor gives up -/
def Fails (nonfree : Nat → Bool) (pages count align off fuel start : Nat) : Prop :=
  searchRun nonfree pages count align off fuel start = none ∨
    ∃ i, searchRun nonfree pages count align off fuel start = some (.outside i)

/-- the sum wraps, and passes the test -/
theorem wrapped_test (hpages : pages ≤ 2 ^ 31) (hc : count < 2 ^ 32) (hwrap : 2 ^ 32 ≤ off + count)
    (hoff : off ≤ start) (hin : start < pages) : start < pages ∧ add32 start count ≤ pages := by
  refine ⟨hin, ?_⟩
  unfold add32
  lia

/-- a run that is longer than the arena is stopped by a page in use, or leaves the array -/
theorem checkRun_long (nonfree : Nat → Bool) (hin : start < pages) (hlong : pages < start + count) :
    ∃ i, checkRun nonfree pages start count 0 = some i ∧ (pages ≤ start + i ∨ nonfree (start + i) = true) ∧
      ∀ l < i, start + l < pages ∧ nonfree (start + l) = false := by
  cases hcheck : checkRun nonfree pages start count 0 with
  | none =>
    have := (checkRun_none hcheck (count - 1) (Nat.zero_le _) (by omega)).1
    omega
  | some i =>
    obtain ⟨-, -, h3, h4⟩ := checkRun_some hcheck
    exact ⟨i, rfl, h3, fun l hl => h4 l (Nat.zero_le l) hl⟩

/-- **The sum wraps**: a page in use behind each aligned index ends the search well. -/
theorem searchRun_wrapped (hal : align ∣ 2 ^ 31) (hpages : pages ≤ 2 ^ 31) (hc : count < 2 ^ 32)
    (hwrap : 2 ^ 32 ≤ off + count)
    (hused : ∀ t, off ≤ t → t < pages → align ∣ t - off → ∃ i, t ≤ i ∧ i < pages ∧ nonfree i = true) :
    ∀ {fuel start : Nat}, off ≤ start → align ∣ start - off → pages - start < fuel →
      searchRun nonfree pages count align off fuel start = some .notFound := by
  intro fuel
  induction fuel with
  | zero =>
    intro start h1 h2 h3
    lia
  | succ fuel ih =>
    intro start hoff hdvd hfuel
    rw [searchRun]
    by_cases hin : start < pages
    · rw [if_pos (wrapped_test hpages hc hwrap hoff hin)]
      obtain ⟨i, hcheck, hbad, hfree⟩ := checkRun_long nonfree (show start < pages by lia)
        (show pages < start + count by lia)
      rw [hcheck]
      obtain ⟨j, hj1, hj2, hj3⟩ := hused start hoff hin hdvd
      have hi : start + i ≤ j := by
        by_contra hlt
        have := (hfree (j - start) (by lia)).2
        rw [Nat.add_sub_cancel' hj1, hj3] at this
        cases this
      dsimp only
      rw [if_neg (by lia)]
      have hn := nextStart_spec hal hpages hoff (show start + i < pages by lia)
      have := hn.behind
      exact ih (by lia) hn.aligned (by lia)
    · exact if_neg fun hx => hin hx.1

/-- **The sum wraps**, and all pages from some aligned index to the end are free: the loop leaves the array. -/
theorem searchRun_leaves (hal : align ∣ 2 ^ 31) (hpages : pages ≤ 2 ^ 31) (hc : count < 2 ^ 32)
    (hwrap : 2 ^ 32 ≤ off + count) {t : Nat} (ht : t < pages) (hoff : off ≤ t) (hdvd : align ∣ t - off)
    (hfree : ∀ i, t ≤ i → i < pages → nonfree i = false) :
    ∀ {fuel start : Nat}, off ≤ start → align ∣ start - off → start ≤ t →
      Fails nonfree pages count align off fuel start := by
  intro fuel
  induction fuel with
  | zero => exact fun _ _ _ => .inl rfl
  | succ fuel ih =>
    intro start h1 h2 h3
    unfold Fails
    rw [searchRun, if_pos (wrapped_test hpages hc hwrap h1 (by lia))]
    obtain ⟨i, hcheck, hbad, -⟩ := checkRun_long nonfree (show start < pages by lia)
      (show pages < start + count by lia)
    rw [hcheck]
    dsimp only
    by_cases hout : pages ≤ start + i
    · rw [if_pos hout]
      exact .inr ⟨_, rfl⟩
    · rw [if_neg hout]
      have hused := hbad.resolve_left hout
      have hbefore : start + i < t := by
        by_contra hle
        have := hfree (start + i) (by lia) (by lia)
        rw [hused] at this
        cases this
      have hn := nextStart_spec hal hpages h1 (show start + i < pages by lia)
      have := hn.behind
      exact ih (by lia) hn.aligned (hn.first t hoff hdvd hbefore)

/-- **The next index wraps**: the loop comes back to the first one for ever. -/
theorem searchRun_spins {m : Nat} (hal : align = 2 ^ 32 * 2 ^ m) (hm : align ≤ 2 ^ 51) (hpages : pages ≤ 2 ^ 31)
    (htest : off < pages ∧ add32 off count ≤ pages) {i : Nat} (hcheck : checkRun nonfree pages off count 0 = some i)
    (fuel : Nat) : Fails nonfree pages count align off fuel off := by
  induction fuel with
  | zero => exact .inl rfl
  | succ fuel ih =>
    unfold Fails
    rw [searchRun, if_pos htest, hcheck]
    dsimp only
    by_cases hout : pages ≤ off + i
    · rw [if_pos hout]
      exact .inr ⟨_, rfl⟩
    · rw [if_neg hout, nextStart_wraps hal hm hpages htest.1 (by omega)]
      exact ih

/-- more fuel changes nothing -/
theorem searchRun_more {e : RunEnd} : ∀ {fuel fuel' start : Nat}, fuel ≤ fuel' →
    searchRun nonfree pages count align off fuel start = some e →
    searchRun nonfree pages count align off fuel' start = some e := by
  intro fuel
  induction fuel with
  | zero =>
    intro fuel' start hle he
    cases he
  | succ fuel ih =>
    intro fuel' start hle he
    obtain ⟨fuel', rfl⟩ := Nat.exists_eq_add_of_lt (show 0 < fuel' by lia)
    rw [Nat.zero_add] at hle ⊢
    rw [searchRun] at he ⊢
    split at he
    · rename_i htest
      rw [if_pos htest]
      cases hcheck : checkRun nonfree pages start count 0 with
      | none =>
        rw [hcheck] at he
        exact he
      | some i =>
        rw [hcheck] at he
        dsimp only at he ⊢
        split at he
        · rename_i hout
          rw [if_pos hout]
          exact he
        · rename_i hout
          rw [if_neg hout]
          exact ih (by lia) he
    · rename_i htest
      rw [if_neg htest]
      exact he

end

/-! ## an arena -/

section
variable {nonfree : Nat → Bool} {a : PmmArena} {count k p : Nat}

theorem shl1_eq (hk : k < 64) : shl1 k = 2 ^ k := by rw [shl1, Nat.mod_eq_of_lt hk]

theorem Sized.frames (h : Sized a) : a.basePfn * PAGE_SIZE = a.base ∧ a.pages * PAGE_SIZE = a.size :=
  ⟨Nat.div_mul_cancel h.base, Nat.div_mul_cancel h.size⟩

theorem pow_pages (hk : PAGE_SIZE_SHIFT ≤ k) : 2 ^ k = 2 ^ (k - PAGE_SIZE_SHIFT) * PAGE_SIZE := by
  rw [show PAGE_SIZE = 2 ^ PAGE_SIZE_SHIFT from rfl, ← Nat.pow_add, Nat.sub_add_cancel hk]

/-- an arena with an aligned frame: the first one, and all others -/
structure Grid (a : PmmArena) (k : Nat) : Prop where
  off : alignedOffset a k < a.pages
  first : 2 ^ k ∣ (a.basePfn + alignedOffset a k) * PAGE_SIZE
  all : ∀ s, 2 ^ k ∣ (a.basePfn + s) * PAGE_SIZE → alignedOffset a k ≤ s

theorem Sized.grid (h : Sized a) (hk : PAGE_SIZE_SHIFT ≤ k) (hk64 : k < 64) (hr : Reaches a k) : Grid a k := by
  obtain ⟨hb, hs⟩ := h.frames
  have hpow : 2 ^ k ≤ 2 ^ 63 := Nat.pow_le_pow_right (by decide) (by omega)
  have hpos : 0 < 2 ^ k := Nat.two_pow_pos k
  have hbound := h.bound
  have hsize := h.pos
  have hpages := h.pages
  have hreach : a.base ≤ roundedBase a k ∧ roundedBase a k ≤ last64 a.base a.size := by
    unfold Reaches at hr
    rw [not_or, not_lt, not_lt] at hr
    exact hr
  have hround : roundedBase a k = roundup64 a.base (2 ^ k) := by rw [roundedBase, shl1_eq hk64]
  have hlast : last64 a.base a.size ≤ a.base + a.size - 1 := by
    unfold last64 sub64 add64
    omega
  have hno : a.base + (2 ^ k - 1) < 2 ^ 64 := by
    by_contra hge
    have hw := (roundup64_wrap (show a.base < 2 ^ 64 by omega) (show 2 ^ k ≤ 2 ^ 64 by omega)
      (Nat.pow_dvd_pow 2 (by omega)) (not_lt.mp hge)).1
    rw [← hround] at hw
    omega
  obtain ⟨h1, h2, h3⟩ := roundup64_spec hpos hno
  rw [← hround] at h1 h2 h3
  have hpage : PAGE_SIZE ∣ roundedBase a k := Nat.dvd_trans ⟨_, (pow_pages hk).trans (Nat.mul_comm _ _)⟩ h1
  have hdiff : (roundedBase a k - a.base) / PAGE_SIZE * PAGE_SIZE = roundedBase a k - a.base :=
    Nat.div_mul_cancel (Nat.dvd_sub hpage h.base)
  have hlt : (roundedBase a k - a.base) / PAGE_SIZE < a.pages := by
    apply Nat.lt_of_mul_lt_mul_right (a := PAGE_SIZE)
    rw [hdiff, hs]
    omega
  have hoff : alignedOffset a k = (roundedBase a k - a.base) / PAGE_SIZE := Nat.mod_eq_of_lt (by omega)
  have haddr : (a.basePfn + alignedOffset a k) * PAGE_SIZE = roundedBase a k := by
    rw [hoff, Nat.add_mul, hb, hdiff]
    omega
  refine ⟨hoff ▸ hlt, haddr ▸ h1, fun s hs' => ?_⟩
  have hle := h3 _ hs' (by rw [Nat.add_mul, hb]; omega)
  rw [← haddr] at hle
  have := Nat.le_of_mul_le_mul_right hle (show 0 < PAGE_SIZE by decide)
  omega

/-- an arena without an aligned frame has no aligned run -/
theorem Sized.no_run (h : Sized a) (hk64 : k < 64) (hc : 0 < count) (hr : ¬ Reaches a k) (p : Nat) :
    ¬ IsRun nonfree count k a p := by
  rintro ⟨hdvd, hall⟩
  obtain ⟨hb, hs⟩ := h.frames
  obtain ⟨⟨h1, h2⟩, -⟩ := hall p (le_refl _) (by omega)
  have hlo : a.base ≤ p * PAGE_SIZE := by
    rw [← hb]
    exact Nat.mul_le_mul_right _ h1
  have hhi : p * PAGE_SIZE < a.base + a.size := by
    rw [← hb, ← hs, ← Nat.add_mul]
    exact Nat.mul_lt_mul_of_pos_right h2 (by decide)
  have hbound := h.bound
  have hsize := h.pos
  have hpow : 2 ^ k ≤ 2 ^ 63 := Nat.pow_le_pow_right (by decide) (by omega)
  have hpos : 0 < 2 ^ k := Nat.two_pow_pos k
  have hround : roundedBase a k = roundup64 a.base (2 ^ k) := by rw [roundedBase, shl1_eq hk64]
  by_cases hno : a.base + (2 ^ k - 1) < 2 ^ 64
  · obtain ⟨-, h4, h5⟩ := roundup64_spec hpos hno
    have hle := h5 _ hdvd hlo
    rw [← hround] at h4 hle
    refine hr fun hx => ?_
    rw [last64_eq hbound hsize] at hx
    omega
  · have := (roundup64_wrap (show a.base < 2 ^ 64 by omega) (show 2 ^ k ≤ 2 ^ 64 by omega)
      (Nat.pow_dvd_pow 2 (by omega)) (not_lt.mp hno)).2 _ hdvd hlo
    omega

/-- runs by frames and by indices -/
theorem Grid.isRun_iff (g : Grid a k) (hk : PAGE_SIZE_SHIFT ≤ k) (hc : 0 < count) (s : Nat) :
    IsRun nonfree count k a (a.basePfn + s) ↔
      Fits (fun i => nonfree (a.basePfn + i)) a.pages count (2 ^ (k - PAGE_SIZE_SHIFT)) (alignedOffset a k) s := by
  have hsame : alignedOffset a k ≤ s →
      (2 ^ k ∣ (a.basePfn + s) * PAGE_SIZE ↔ 2 ^ (k - PAGE_SIZE_SHIFT) ∣ s - alignedOffset a k) := by
    intro hle
    have hsum : (a.basePfn + s) * PAGE_SIZE =
        (a.basePfn + alignedOffset a k) * PAGE_SIZE + (s - alignedOffset a k) * PAGE_SIZE := by
      rw [← Nat.add_mul]
      congr 1
      lia
    rw [hsum, Nat.dvd_add_right g.first, pow_pages hk]
    exact Nat.mul_dvd_mul_iff_right (by decide)
  constructor
  · rintro ⟨h1, h2⟩
    have hle := g.all s h1
    refine ⟨hle, (hsame hle).mp h1, ?_, fun j hj => (h2 _ (by lia) (by lia)).2⟩
    have hlast := (h2 (a.basePfn + s + (count - 1)) (by lia) (by lia)).1
    unfold PmmArena.Has at hlast
    lia
  · rintro ⟨h1, h2, h3, h4⟩
    refine ⟨(hsame h1).mpr h2, fun q hq1 hq2 => ⟨⟨by lia, by lia⟩, ?_⟩⟩
    have := h4 (q - (a.basePfn + s)) (by lia)
    dsimp only at this
    rwa [show a.basePfn + (s + (q - (a.basePfn + s))) = q by lia] at this

/-- a run begins at an index -/
theorem IsRun.index (h : IsRun nonfree count k a p) (hc : 0 < count) : ∃ s, p = a.basePfn + s := by
  have := (h.2 p (le_refl _) (by omega)).1.1
  exact ⟨p - a.basePfn, by omega⟩

/-- the search of the arena ends with a run, or there is none -/
def ArenaSettles (nonfree : Nat → Bool) (count k fuel : Nat) (a : PmmArena) : Prop :=
  (∃ s, searchArena nonfree count k fuel a = some (.found s) ∧ IsRun nonfree count k a (a.basePfn + s)) ∨
  (searchArena nonfree count k fuel a = some .notFound ∧ ∀ p, ¬ IsRun nonfree count k a p)

/-- the search of the arena neither finds a run nor gives up -/
def ArenaFails (nonfree : Nat → Bool) (count k fuel : Nat) (a : PmmArena) : Prop :=
  searchArena nonfree count k fuel a = none ∨ ∃ i, searchArena nonfree count k fuel a = some (.outside i)

theorem searchArena_reaches (hk64 : k < 64) (hr : Reaches a k) (fuel : Nat) :
    searchArena nonfree count k fuel a = searchRun (fun i => nonfree (a.basePfn + i)) a.pages count
      (2 ^ (k - PAGE_SIZE_SHIFT)) (alignedOffset a k) fuel (alignedOffset a k) := by
  rw [searchArena, if_pos hr, shl1_eq (by omega)]

theorem Grid.settles (g : Grid a k) (hk : PAGE_SIZE_SHIFT ≤ k) (hk64 : k < 64) (hc : 0 < count) (hr : Reaches a k)
    {fuel : Nat} (h : Settles (fun i => nonfree (a.basePfn + i)) a.pages count (2 ^ (k - PAGE_SIZE_SHIFT))
      (alignedOffset a k) fuel (alignedOffset a k)) : ArenaSettles nonfree count k fuel a := by
  unfold ArenaSettles
  rw [searchArena_reaches hk64 hr]
  obtain ⟨t, h1, h2⟩ | ⟨h1, h2⟩ := h
  · exact .inl ⟨t, h1, (g.isRun_iff hk hc t).mpr h2⟩
  · refine .inr ⟨h1, fun p hp => ?_⟩
    obtain ⟨s, rfl⟩ := hp.index hc
    exact h2 s ((g.isRun_iff hk hc s).mp hp)

theorem align_dvd (hk : k < 44) : 2 ^ (k - PAGE_SIZE_SHIFT) ∣ 2 ^ 31 :=
  Nat.pow_dvd_pow 2 (by unfold PAGE_SIZE_SHIFT; omega)

theorem align_wide (hk : 44 ≤ k) (hk64 : k < 64) : 2 ^ (k - PAGE_SIZE_SHIFT) = 2 ^ 32 * 2 ^ (k - 44) ∧
    2 ^ (k - PAGE_SIZE_SHIFT) ≤ 2 ^ 51 := by
  unfold PAGE_SIZE_SHIFT
  refine ⟨?_, Nat.pow_le_pow_right (by decide) (by omega)⟩
  rw [← Nat.pow_add]
  congr 1
  omega

/-- **An arena that meets the condition.** -/
theorem Sized.settles (h : Sized a) (hc : 0 < count) (hc32 : count < 2 ^ 32) (hk : PAGE_SIZE_SHIFT ≤ k)
    (hk64 : k < 64) (hsafe : SafeArena nonfree count k a) {fuel : Nat} (hfuel : a.pages < fuel) :
    ArenaSettles nonfree count k fuel a := by
  by_cases hr : Reaches a k
  · have g := h.grid hk hk64 hr
    have hoff := g.off
    have hpages := h.pages
    have hcond := hsafe hr
    apply g.settles hk hk64 hc hr
    by_cases h32 : alignedOffset a k + count < 2 ^ 32
    · rw [if_pos h32] at hcond
      by_cases hover : a.pages < alignedOffset a k + count
      · exact searchRun_over h32 hover (by lia)
      · obtain hk44 | hbad | hfree := hcond
        · exact searchRun_narrow (align_dvd hk44) hpages hc (by lia) (le_refl _) (by simp) (fun t ht => ht.1)
            (by lia)
        · exact absurd hbad hover
        · -- the first index is a run
          have hfit : Fits (fun i => nonfree (a.basePfn + i)) a.pages count (2 ^ (k - PAGE_SIZE_SHIFT))
              (alignedOffset a k) (alignedOffset a k) := ⟨le_refl _, by simp, by lia, hfree⟩
          refine .inl ⟨_, ?_, hfit⟩
          obtain ⟨fuel, rfl⟩ := Nat.exists_eq_add_of_lt (show 0 < fuel by lia)
          rw [Nat.zero_add, searchRun, add32_of_lt h32, if_pos ⟨hoff, by lia⟩]
          cases hcheck : checkRun (fun i => nonfree (a.basePfn + i)) a.pages (alignedOffset a k) count 0 with
          | none => rfl
          | some i =>
            obtain ⟨-, h2, h3, -⟩ := checkRun_some hcheck
            obtain hout | hused := h3
            · lia
            · cases hused.symm.trans (hfree i (by lia))
    · rw [if_neg h32] at hcond
      obtain ⟨hk44, htail⟩ := hcond
      refine .inr ⟨?_, fun t ht => ?_⟩
      · refine searchRun_wrapped (align_dvd hk44) hpages hc32 (by lia) (fun t h1 h2 h3 => ?_) (le_refl _) (by simp)
          (by lia)
        have hno := htail t h1 h2 h3
        unfold FreeTail at hno
        push Not at hno
        obtain ⟨i, h4, h5, h6⟩ := hno
        exact ⟨i, h4, h5, by simpa using h6⟩
      · have := ht.2.2.1
        lia
  · unfold ArenaSettles
    rw [searchArena, if_neg hr]
    exact .inr ⟨rfl, h.no_run hk64 hc hr⟩

/-- **An arena that does not**: whatever the fuel, no result. -/
theorem Sized.fails (h : Sized a) (hc32 : count < 2 ^ 32) (hk : PAGE_SIZE_SHIFT ≤ k) (hk64 : k < 64)
    (hsafe : ¬ SafeArena nonfree count k a) (fuel : Nat) : ArenaFails nonfree count k fuel a := by
  unfold SafeArena at hsafe
  rw [Classical.not_imp] at hsafe
  obtain ⟨hr, hcond⟩ := hsafe
  have hoff := (h.grid hk hk64 hr).off
  have hpages := h.pages
  unfold ArenaFails
  rw [searchArena_reaches hk64 hr]
  by_cases h32 : alignedOffset a k + count < 2 ^ 32
  · rw [if_pos h32, not_or, not_or, not_lt, not_lt] at hcond
    obtain ⟨hk44, hin, hused⟩ := hcond
    obtain ⟨hal, hle⟩ := align_wide hk44 hk64
    have htest : alignedOffset a k < a.pages ∧ add32 (alignedOffset a k) count ≤ a.pages := by
      rw [add32_of_lt h32]
      exact ⟨hoff, hin⟩
    cases hcheck : checkRun (fun i => nonfree (a.basePfn + i)) a.pages (alignedOffset a k) count 0 with
    | none => exact absurd (fun i hi => (checkRun_none hcheck i (Nat.zero_le i) (by omega)).2) hused
    | some i => exact searchRun_spins hal hle hpages htest hcheck fuel
  · rw [if_neg h32, not_and] at hcond
    by_cases hk44 : k < 44
    · have htail := hcond hk44
      push Not at htail
      obtain ⟨t, h1, h2, h3, h4⟩ := htail
      exact searchRun_leaves (align_dvd hk44) hpages hc32 (by omega) h2 h1 h3 h4 (le_refl _) (by simp) h1
    · obtain ⟨hal, hle⟩ := align_wide (not_lt.mp hk44) hk64
      have htest := wrapped_test hpages hc32 (show 2 ^ 32 ≤ alignedOffset a k + count by omega) (le_refl _) hoff
      obtain ⟨i, hcheck, -⟩ := checkRun_long (fun i => nonfree (a.basePfn + i)) hoff
        (show a.pages < alignedOffset a k + count by omega)
      exact searchRun_spins hal hle hpages htest hcheck fuel

/-! ## the walk -/

/-- the end of a search stays the end -/
theorem searchArena_more {e : RunEnd} {fuel fuel' : Nat} (hle : fuel ≤ fuel')
    (he : searchArena nonfree count k fuel a = some e) : searchArena nonfree count k fuel' a = some e := by
  unfold searchArena at he ⊢
  split at he
  · rename_i hr
    rw [if_pos hr]
    exact searchRun_more hle he
  · rename_i hr
    rw [if_neg hr]
    exact he

/-- what the walk returns, for all arenas -/
def WalkSettles (nonfree : Nat → Bool) (count k : Nat) (as : List PmmArena) : List PmmArena × RunEnd → Prop
  | (as', .found p) =>
    (∃ a ∈ as, a.kmap = true ∧ IsRun nonfree count k a p) ∧ Took nonfree as as' (List.range' p count)
  | (as', .notFound) => as' = as ∧ ∀ a ∈ as, a.kmap = true → ∀ p, ¬ IsRun nonfree count k a p
  | (_, .outside _) => False

/-- an arena that the walk passes -/
theorem WalkSettles.cons {as : List PmmArena} {r : List PmmArena × RunEnd} (h : WalkSettles nonfree count k as r)
    (hwf : ArenasWf nonfree (a :: as)) (hno : a.kmap = true → ∀ p, ¬ IsRun nonfree count k a p) :
    WalkSettles nonfree count k (a :: as) (a :: r.1, r.2) := by
  obtain ⟨as', e⟩ := r
  obtain ⟨⟨-, hnodup, -⟩, -⟩ := arenasWf_cons.mp hwf
  cases e with
  | found p =>
    obtain ⟨⟨b, hb, hrun⟩, htook⟩ := h
    exact ⟨⟨b, List.mem_cons_of_mem _ hb, hrun⟩, Took.cons [] hwf hnodup List.nodup_nil (by simp) (by simp) htook⟩
  | notFound =>
    obtain ⟨rfl, hall⟩ := h
    refine ⟨rfl, fun b hb => ?_⟩
    obtain rfl | hb := List.mem_cons.mp hb
    · exact hno
    · exact hall b hb
  | outside i => exact h

/-- the run of an arena leaves its free list -/
theorem WalkSettles.here {as : List PmmArena} (hwf : ArenasWf nonfree (a :: as)) (hkmap : a.kmap = true)
    (hrun : IsRun nonfree count k a p) : WalkSettles nonfree count k (a :: as)
      ({ a with freeList := a.freeList.filter fun q => ¬ (p ≤ q ∧ q < p + count) } :: as, .found p) := by
  obtain ⟨⟨hmem, hnodup, -⟩, ht⟩ := arenasWf_cons.mp hwf
  refine ⟨⟨a, List.mem_cons_self .., hkmap, hrun⟩, ?_⟩
  have htook := Took.cons (l := a.freeList.filter fun q => ¬ (p ≤ q ∧ q < p + count))
    (List.range' p count) hwf (hnodup.filter _) List.nodup_range' ?_ ?_ (Took.none ht)
  · rwa [List.append_nil] at htook
  · intro q hq
    rw [List.mem_range'_1] at hq
    exact (hmem q).mpr (hrun.2 q hq.1 hq.2)
  · intro q
    rw [List.mem_filter, List.mem_range'_1, decide_eq_true_eq]

theorem contiguousWalk_settles (hc : 0 < count) (hc32 : count < 2 ^ 32) (hk : PAGE_SIZE_SHIFT ≤ k) (hk64 : k < 64)
    {fuel : Nat} : ∀ {as : List PmmArena}, ArenasWf nonfree as → (∀ a ∈ as, Sized a ∧ a.pages < fuel) →
      SafeWalk nonfree count k as →
      ∃ r, contiguousWalk nonfree count k fuel as = some r ∧ WalkSettles nonfree count k as r := by
  intro as
  induction as with
  | nil =>
    intro hwf hok hsafe
    refine ⟨_, rfl, rfl, fun a ha => ?_⟩
    cases ha
  | cons a as ih =>
    intro hwf hok hsafe
    obtain ⟨ha, hfuel⟩ := hok a (List.mem_cons_self ..)
    have htail := fun b hb => hok b (List.mem_cons_of_mem a hb)
    have hwft := (arenasWf_cons.mp hwf).2
    rw [contiguousWalk]
    rw [SafeWalk] at hsafe
    by_cases hkmap : a.kmap = true
    · rw [if_pos hkmap] at hsafe ⊢
      obtain ⟨hsafe, hrest⟩ := hsafe
      obtain ⟨s, h1, h2⟩ | ⟨h1, h2⟩ := ha.settles hc hc32 hk hk64 hsafe hfuel
      · rw [h1]
        exact ⟨_, rfl, WalkSettles.here hwf hkmap h2⟩
      · rw [h1]
        obtain ⟨r, h3, h4⟩ := ih hwft htail (hrest.resolve_left fun hx => h2 _ hx.choose_spec)
        dsimp only
        rw [h3]
        exact ⟨_, rfl, h4.cons hwf fun _ => h2⟩
    · rw [if_neg hkmap] at hsafe ⊢
      obtain ⟨r, h3, h4⟩ := ih hwft htail hsafe
      dsimp only
      rw [h3]
      exact ⟨_, rfl, h4.cons hwf fun hx => absurd hx hkmap⟩

theorem contiguousWalk_fails (hc : 0 < count) (hc32 : count < 2 ^ 32) (hk : PAGE_SIZE_SHIFT ≤ k) (hk64 : k < 64)
    (fuel : Nat) : ∀ {as : List PmmArena}, (∀ a ∈ as, Sized a) → ¬ SafeWalk nonfree count k as →
      contiguousWalk nonfree count k fuel as = none ∨
        ∃ as' i, contiguousWalk nonfree count k fuel as = some (as', .outside i) := by
  intro as
  induction as with
  | nil => exact fun _ hsafe => absurd trivial hsafe
  | cons a as ih =>
    intro hok hsafe
    have ha := hok a (List.mem_cons_self ..)
    have htail := fun b hb => hok b (List.mem_cons_of_mem a hb)
    have hnext : ¬ SafeWalk nonfree count k as →
        (contiguousWalk nonfree count k fuel as).map (fun r => (a :: r.1, r.2)) = none ∨
        ∃ as' i,
          (contiguousWalk nonfree count k fuel as).map (fun r => (a :: r.1, r.2)) = some (as', .outside i) := by
      intro hrest
      obtain h1 | ⟨as', i, h1⟩ := ih htail hrest
      · rw [h1]
        exact .inl rfl
      · rw [h1]
        exact .inr ⟨_, i, rfl⟩
    rw [contiguousWalk]
    rw [SafeWalk] at hsafe
    by_cases hkmap : a.kmap = true
    · rw [if_pos hkmap] at hsafe ⊢
      by_cases harena : SafeArena nonfree count k a
      · rw [not_and] at hsafe
        have hsafe := hsafe harena
        rw [not_or] at hsafe
        -- with enough fuel the arena has no run, so with less there is no other end
        obtain ⟨s, -, h2⟩ | ⟨h1, -⟩ := ha.settles hc hc32 hk hk64 harena
          (show a.pages < max fuel (a.pages + 1) by omega)
        · exact absurd ⟨_, h2⟩ hsafe.1
        · cases he : searchArena nonfree count k fuel a with
          | none => exact .inl rfl
          | some e =>
            have hsame := searchArena_more (Nat.le_max_left fuel (a.pages + 1)) he
            rw [h1] at hsame
            cases hsame
            exact hnext hsafe.2
      · obtain h1 | ⟨i, h1⟩ := ha.fails hc32 hk hk64 harena fuel
        · rw [h1]
          exact .inl rfl
        · rw [h1]
          exact .inr ⟨_, i, rfl⟩
    · rw [if_neg hkmap] at hsafe ⊢
      exact hnext hsafe

end

/-- **Contiguous runs.**  The call meets the claim exactly when each arena up to the one with a run meets its
condition. -/
theorem pmm_alloc_contiguous_exact {s : Pmm} (h : ArenasWf s.nonfree s.arenaList) (hs : ∀ a ∈ s.arenaList, Sized a)
    {count alignmentLog2 : Nat} (hc : count < 2 ^ 32) (hk : alignmentLog2 < 64) : RunExact s count alignmentLog2 ↔
      count = 0 ∨ SafeWalk s.nonfree count (max alignmentLog2 PAGE_SIZE_SHIFT) s.arenaList := by
  by_cases h0 : count = 0
  · refine ⟨fun _ => .inl h0, fun _ => ⟨0, s, .notFound, ?_, rfl, rfl, .inl h0⟩⟩
    rw [pmmAllocContiguous, if_pos h0]
  have hpos := Nat.pos_of_ne_zero h0
  have hk12 := Nat.le_max_right alignmentLog2 PAGE_SIZE_SHIFT
  have hk64 : max alignmentLog2 PAGE_SIZE_SHIFT < 64 := by
    unfold PAGE_SIZE_SHIFT
    omega
  unfold RunExact
  simp only [pmmAllocContiguous, if_neg h0]
  constructor
  · rintro ⟨fuel, s', e, hcall, hend⟩
    right
    by_contra hsafe
    obtain h1 | ⟨as', i, h1⟩ := contiguousWalk_fails hpos hc hk12 hk64 fuel hs hsafe
    · rw [h1] at hcall
      cases hcall
    · rw [h1] at hcall
      cases hcall
      exact hend
  · rintro (hz | hsafe)
    · exact absurd hz h0
    have hfuel : ∃ fuel, ∀ a ∈ s.arenaList, Sized a ∧ a.pages < fuel :=
      ⟨2 ^ 31 + 1, fun a ha => ⟨hs a ha, Nat.lt_succ_of_le (hs a ha).pages⟩⟩
    obtain ⟨fuel, hfuel⟩ := hfuel
    obtain ⟨⟨as', e⟩, h1, h2⟩ := contiguousWalk_settles hpos hc hk12 hk64 h hfuel hsafe
    refine ⟨fuel, ?_⟩
    rw [h1]
    cases e with
    | found p => exact ⟨_, _, rfl, hpos, h2.1, h2.2, rfl⟩
    | notFound => exact ⟨_, _, rfl, rfl, rfl, .inr h2.2⟩
    | outside i => exact h2.elim

/-- an arena of the frames 1 and 2 -/
def framesOneTwo : Pmm := pmmAddArena Pmm.empty ⟨PAGE_SIZE, 2 * PAGE_SIZE, 0, true, []⟩

theorem framesOneTwo_wf :
    ArenasWf framesOneTwo.nonfree framesOneTwo.arenaList ∧ ∀ a ∈ framesOneTwo.arenaList, Sized a := by
  have hwf : framesOneTwo.Wf := by
    refine Pmm.Wf.addArena Pmm.empty_wf ⟨by decide, by decide, by decide⟩ fun b hb => ?_
    cases hb
  refine ⟨hwf.arenas, fun a ha => ?_⟩
  obtain rfl : a = ⟨PAGE_SIZE, 2 * PAGE_SIZE, 0, true, [1, 2]⟩ := List.mem_singleton.mp ha
  exact ⟨by decide, by decide, by decide, by decide, by decide⟩

/-- the theorem for one page -/
theorem pmm_alloc_contiguous_one : RunExact framesOneTwo 1 0 ↔
    1 = 0 ∨ SafeWalk framesOneTwo.nonfree 1 (max 0 PAGE_SIZE_SHIFT) framesOneTwo.arenaList :=
  pmm_alloc_contiguous_exact framesOneTwo_wf.1 framesOneTwo_wf.2 (by decide) (by decide)

/-- **A run of 2³² - 1 pages.**  Frame 2 is the first aligned one; there the sum is 0, and the loop reads on behind
the array. -/
theorem pmm_alloc_contiguous_leaves : ¬ ∀ (s : Pmm) (count alignmentLog2 : Nat), ArenasWf s.nonfree s.arenaList →
    (∀ a ∈ s.arenaList, Sized a) → count < 2 ^ 32 → alignmentLog2 < 32 → RunExact s count alignmentLog2 := by
  intro hall
  obtain ⟨fuel, s', e, hcall, hend⟩ := hall framesOneTwo (2 ^ 32 - 1) 13 framesOneTwo_wf.1 framesOneTwo_wf.2
    (by decide) (by decide)
  have hunsafe : ¬ SafeWalk framesOneTwo.nonfree (2 ^ 32 - 1) 13 framesOneTwo.arenaList := by
    intro hsafe
    have hcond := hsafe.1 (show Reaches ⟨PAGE_SIZE, 2 * PAGE_SIZE, 0, true, [1, 2]⟩ 13 by decide)
    rw [if_neg (by decide)] at hcond
    refine hcond.2 1 (by decide) (by decide) (by decide) fun i h1 h2 => ?_
    change (if PmmArena.Has _ _ then false else false) = false
    exact ite_self _
  unfold pmmAllocContiguous at hcall
  rw [if_neg (by decide)] at hcall
  obtain h1 | ⟨as', i, h1⟩ := contiguousWalk_fails (by decide) (by decide) (by decide) (by decide) fuel
    framesOneTwo_wf.2 hunsafe
  · rw [show max 13 PAGE_SIZE_SHIFT = 13 from rfl, h1] at hcall
    cases hcall
  · rw [show max 13 PAGE_SIZE_SHIFT = 13 from rfl, h1] at hcall
    cases hcall
    exact hend

/-! ## the same on numbers -/

/-- what the search on numbers returns, as an end -/
def RunEnd.ofOption : Option Nat → RunEnd
  | some start => .found start
  | none => .notFound

section
variable {nonfree : Nat → Bool} {a : PmmArena} {pages count align off k : Nat}

theorem roundup_eq {x b : Nat} (h : x + (b - 1) < 2 ^ 64) (hb : 0 < b) : roundup x b = roundup64 x b := by
  unfold roundup roundup64
  rw [Nat.mod_eq_of_lt h, Nat.add_sub_assoc hb]

/-- the page that stops a run in the arena -/
theorem checkRun_find {start : Nat} : ∀ {n i : Nat}, start + (i + n) ≤ pages →
    checkRun nonfree pages start n i = (List.range' i n).find? fun j => nonfree (start + j) := by
  intro n
  induction n with
  | zero => exact fun _ => rfl
  | succ n ih =>
    intro i hin
    rw [checkRun, List.range'_succ, List.find?_cons]
    by_cases hused : nonfree (start + i) = true
    · rw [if_pos (.inr hused), hused]
    · rw [if_neg fun hx => hused (hx.resolve_left (by lia)), ih (by lia)]
      rw [Bool.not_eq_true] at hused
      rw [hused]

theorem searchRun_number (hal : align ∣ 2 ^ 31) (hpages : pages ≤ 2 ^ 31) :
    ∀ {fuel start : Nat}, off ≤ start → start + count < 2 ^ 32 ∨ count ≤ pages → pages - start < fuel →
      searchRun nonfree pages count align off fuel start =
        some (.ofOption (LkHv.searchRun nonfree pages count align off fuel start)) := by
  intro fuel
  induction fuel with
  | zero =>
    intro start h1 h2 h3
    lia
  | succ fuel ih =>
    intro start hoff hsmall hfuel
    rw [searchRun, LkHv.searchRun]
    by_cases hin : start < pages ∧ start + count ≤ pages
    · rw [add32_of_lt (by lia), if_pos hin, if_pos hin, checkRun_find (by lia), ← List.range_eq_range']
      cases hfind : (List.range count).find? fun j => nonfree (start + j) with
      | none => rfl
      | some i =>
        have hi := List.mem_range.mp (List.mem_of_find?_eq_some hfind)
        have hpos : 0 < align := Nat.pos_of_dvd_of_pos hal (Nat.two_pow_pos 31)
        have hle : align ≤ 2 ^ 31 := Nat.le_of_dvd (Nat.two_pow_pos 31) hal
        have hx : add32 (add32 (sub32 start off) i) 1 = start - off + i + 1 := by
          rw [sub32_of_le (by lia) hoff, add32_of_lt (show start - off + i < 2 ^ 32 by lia), add32_of_lt (by lia)]
        have hnext : nextStart start off i align = roundup (start - off + i + 1) align + off := by
          have hround := (roundup64_spec (a := start - off + i + 1) hpos (by lia)).2.2 (2 ^ 31) hal (by lia)
          rw [roundup_eq (by lia) hpos, nextStart, hx, Nat.mod_eq_of_lt (by lia)]
        have hbehind := (nextStart_spec hal hpages hoff (show start + i < pages by lia)).behind
        dsimp only
        rw [if_neg (by lia), ← hnext]
        exact ih (by lia) (.inr (by lia)) (by lia)
    · rw [if_neg hin, if_neg]
      · rfl
      · rintro ⟨h1, h2⟩
        rw [add32_of_lt (by lia)] at h2
        exact hin ⟨h1, h2⟩

/-- the sum and the next index do not wrap -/
def Narrow (count k : Nat) (a : PmmArena) : Prop := k < 44 ∧ a.pages + count < 2 ^ 32

theorem Sized.searchArena (h : Sized a) (nonfree : Nat → Bool) (hk : PAGE_SIZE_SHIFT ≤ k) (hn : Narrow count k a) :
    ∃ r, PmmRun.searchArena nonfree count k (a.pages + 1) a = some (.ofOption r) ∧
      a.findRun nonfree count k = r.map (a.basePfn + ·) := by
  obtain ⟨hk44, hsum⟩ := hn
  have hbound := h.bound
  have hsize := h.pos
  have hpages := h.pages
  have hpow : 2 ^ k ≤ 2 ^ 63 := Nat.pow_le_pow_right (by decide) (by lia)
  have hpos : 0 < 2 ^ k := Nat.two_pow_pos k
  have hround : roundedBase a k = roundup64 a.base (2 ^ k) := by rw [roundedBase, shl1_eq (by lia)]
  unfold PmmArena.findRun
  dsimp only
  by_cases hr : Reaches a k
  · have g := h.grid hk (by lia) hr
    have hoff := g.off
    have hreach := hr
    unfold Reaches at hreach
    rw [not_or, not_lt, not_lt, last64_eq hbound hsize] at hreach
    have hno : a.base + (2 ^ k - 1) < 2 ^ 64 := by
      by_contra hge
      have hw := (roundup64_wrap (show a.base < 2 ^ 64 by lia) (show 2 ^ k ≤ 2 ^ 64 by lia)
        (Nat.pow_dvd_pow 2 (by lia)) (not_lt.mp hge)).1
      rw [← hround] at hw
      lia
    have hsame : roundup a.base (2 ^ k) = roundedBase a k := by rw [hround, roundup_eq hno hpos]
    have hmod : (roundedBase a k - a.base) / PAGE_SIZE = alignedOffset a k := by
      refine (Nat.mod_eq_of_lt ?_).symm
      have := Nat.div_le_div_right (c := PAGE_SIZE) (show roundedBase a k - a.base ≤ a.size by lia)
      have : a.size / PAGE_SIZE = a.pages := rfl
      lia
    refine ⟨LkHv.searchRun (fun i => nonfree (a.basePfn + i)) a.pages count (2 ^ (k - PAGE_SIZE_SHIFT))
      (alignedOffset a k) (a.pages + 1) (alignedOffset a k), ?_, ?_⟩
    · rw [searchArena_reaches (by lia) hr]
      exact searchRun_number (align_dvd hk44) hpages (le_refl _) (.inl (by lia)) (by lia)
    · rw [hsame, if_neg (by lia), hmod]
  · have hout : roundup a.base (2 ^ k) < a.base ∨ roundup a.base (2 ^ k) > a.base + a.size - 1 := by
      by_cases hno : a.base + (2 ^ k - 1) < 2 ^ 64
      · unfold Reaches at hr
        rw [not_not, last64_eq hbound hsize, hround, ← roundup_eq hno hpos] at hr
        lia
      · have hge : a.base ≤ roundup a.base (2 ^ k) := by
          have h1 := Nat.div_add_mod (a.base + 2 ^ k - 1) (2 ^ k)
          have h2 := Nat.mod_lt (a.base + 2 ^ k - 1) hpos
          unfold roundup
          rw [Nat.mul_comm]
          lia
        have := (roundup64_wrap (show a.base < 2 ^ 64 by lia) (show 2 ^ k ≤ 2 ^ 64 by lia)
          (Nat.pow_dvd_pow 2 (by lia)) (not_lt.mp hno)).2 _ (dvd_roundup a.base (2 ^ k)) hge
        lia
    refine ⟨none, ?_, ?_⟩
    · rw [PmmRun.searchArena, if_neg hr]
      rfl
    · rw [if_pos hout]
      rfl

end

/-- **Without a wrap** the call on machine words is the call on numbers. -/
theorem pmmAllocContiguous_number {s : Pmm} (hs : ∀ a ∈ s.arenaList, Sized a) {count alignmentLog2 : Nat}
    (hn : ∀ a ∈ s.arenaList, Narrow count (max alignmentLog2 PAGE_SIZE_SHIFT) a) :
    ∃ fuel, pmmAllocContiguous s count alignmentLog2 fuel = some ((LkHv.pmmAllocContiguous s count alignmentLog2).1,
        .ofOption (LkHv.pmmAllocContiguous s count alignmentLog2).2) := by
  have hwalk : ∀ as : List PmmArena, (∀ a ∈ as, a ∈ s.arenaList) →
      contiguousWalk s.nonfree count (max alignmentLog2 PAGE_SIZE_SHIFT) (2 ^ 31 + 1) as =
        some ((LkHv.contiguousWalk s.nonfree count (max alignmentLog2 PAGE_SIZE_SHIFT) as).1,
          .ofOption (LkHv.contiguousWalk s.nonfree count (max alignmentLog2 PAGE_SIZE_SHIFT) as).2) := by
    intro as
    induction as with
    | nil => exact fun _ => rfl
    | cons a as ih =>
      intro hsub
      have ha := hsub a (List.mem_cons_self ..)
      have hih := congrArg (Option.map fun r => (a :: r.1, r.2)) (ih fun b hb => hsub b (List.mem_cons_of_mem a hb))
      rw [contiguousWalk, LkHv.contiguousWalk]
      by_cases hkmap : a.kmap = true
      · obtain ⟨r, h1, h2⟩ := (hs a ha).searchArena s.nonfree (Nat.le_max_right ..) (hn a ha)
        have h1 := searchArena_more (show a.pages + 1 ≤ 2 ^ 31 + 1 from Nat.succ_le_succ (hs a ha).pages) h1
        rw [if_pos hkmap, if_pos hkmap, h1, h2]
        cases r with
        | some t => rfl
        | none => exact hih
      · rw [if_neg hkmap, if_neg hkmap]
        exact hih
  refine ⟨2 ^ 31 + 1, ?_⟩
  rw [pmmAllocContiguous, LkHv.pmmAllocContiguous]
  by_cases h0 : count = 0
  · rw [if_pos h0, if_pos h0]
    rfl
  · rw [if_neg h0, if_neg h0, hwalk s.arenaList fun a ha => ha]
    obtain ⟨as', r⟩ := LkHv.contiguousWalk s.nonfree count (max alignmentLog2 PAGE_SIZE_SHIFT) s.arenaList
    cases r with
    | none => rfl
    | some p => rfl

theorem pmmAllocContiguous_number_two : ∃ fuel, pmmAllocContiguous framesOneTwo 2 13 fuel =
    some ((LkHv.pmmAllocContiguous framesOneTwo 2 13).1, .ofOption (LkHv.pmmAllocContiguous framesOneTwo 2 13).2) :=
  pmmAllocContiguous_number framesOneTwo_wf.2 fun a ha => by
    obtain rfl : a = ⟨PAGE_SIZE, 2 * PAGE_SIZE, 0, true, [1, 2]⟩ := List.mem_singleton.mp ha
    exact ⟨by decide, by decide⟩

end PmmRun
end LkHv
