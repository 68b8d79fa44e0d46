import LkHv.Mem.Isolation

/-!
# `lkhv_alloc_mem` to the letter

The array of segment records is a block from `malloc` with any contents, the loop fills it record by record, and the
exit for a refused segment reads the records after `free`, to the first whose `pa` is 0.

* `fillSegs`, `cleanSegs`, `allocMem`   the two loops and the function, with what it did to the pages and the records;
* `AllocSound`             what it should do;
* `fillSegs_refused`, `fillSegs_cells`   what the first loop leaves;
* `allocMem_segments`      the function of `Mem.Segments` is this one;
* `allocMem_sound_iff`     when it does what it should;
* `allocMem_fails`         not so when the second of two segments is refused.
-/

namespace LkHv

/-- pages of a segment -/
def SEG_PAGES : Nat := 1 <<< (VM_MEM_BLOCK_SHIFT - PAGE_SIZE_SHIFT)

/-- the array and the allocator in the loops -/
structure SegFill where
  pmm : Pmm
  cell : Nat → PhyMemSeg
  /-- monitor: the pages obtained -/
  taken : List Nat

/-- `list_initialize` of the list of record `i` -/
def SegFill.initList (f : SegFill) (i : Nat) : SegFill :=
  { f with cell := Function.update f.cell i { f.cell i with pgs := [] } }

/-- record `i` gets the pages from `pg` on -/
def SegFill.store (f : SegFill) (i ipa : Nat) (pmm : Pmm) (pg : Nat) : SegFill where
  pmm := pmm
  cell := Function.update f.cell i { pgs := List.range' pg SEG_PAGES, pa := PAGE_SIZE * pg, ipa := ipa }
  taken := f.taken ++ List.range' pg SEG_PAGES

/-- the loop that fills the records from `i` on; at the end the record whose segment was refused -/
def fillSegs : Nat → Nat → Nat → SegFill → SegFill × Option Nat
  | 0, _, _, f => (f, none)
  | n + 1, i, ipa, f =>
    let f := f.initList i
    let r := pmmAllocContiguous f.pmm SEG_PAGES VM_MEM_BLOCK_SHIFT
    match r.2 with
    | none => ({ f with pmm := r.1 }, some i)
    | some pg => fillSegs n (i + 1) ((ipa + VM_MEM_BLOCK_2M) % 2 ^ 64) (f.store i ipa r.1 pg)

/-- monitor: the clean-up loop looks at a record -/
structure SegRead where
  filled : Bool
  freed : Bool
  deriving DecidableEq

structure Cleaned where
  pmm : Pmm
  reads : List SegRead
  /-- the pages handed to `pmm_free` -/
  given : List Nat

/-- the loop after `failed`, when the records before `filled` are filled -/
def cleanSegs (cell : Nat → PhyMemSeg) (filled : Nat) (freed : Bool) : Nat → Nat → Pmm → Cleaned
  | 0, _, pmm => ⟨pmm, [], []⟩
  | n + 1, i, pmm =>
    let read : SegRead := ⟨i < filled, freed⟩
    if (cell i).pa ≠ 0 then
      let c := cleanSegs cell filled freed n (i + 1) (pmmFree pmm (cell i).pgs)
      { c with reads := read :: c.reads, given := (cell i).pgs ++ c.given }
    else ⟨pmm, [read], []⟩

/-- what a call did -/
structure AllocCall where
  pmm : Pmm
  segNum : Nat
  /-- `mem_seg`, and whether its block is freed -/
  memSeg : Option (Nat → PhyMemSeg)
  freed : Bool
  ret : Int
  taken : List Nat
  given : List Nat
  reads : List SegRead

/-- `lkhv_alloc_mem`.  `malloc` returns a block with the contents `block`, and after `free` a block that held `c`
reads as `gone c`. -/
def allocMem (info : VmInfo) (pmm : Pmm) (segNum : Nat) (memSeg block : Option (Nat → PhyMemSeg))
    (gone : (Nat → PhyMemSeg) → Nat → PhyMemSeg) : AllocCall :=
  if memSegCounts info < 0 then ⟨pmm, segNum, memSeg, false, ERR_INVALID_ARGS, [], [], []⟩
  else
    let n := (memSegCounts info).toNat
    match block with
    | none => ⟨pmm, n, none, false, ERR_NO_MEMORY, [], [], []⟩
    | some cell =>
      let f := fillSegs n 0 info.ipaStart ⟨pmm, cell, []⟩
      match f.2 with
      | none => ⟨f.1.pmm, n, some f.1.cell, false, 0, f.1.taken, [], []⟩
      | some i =>
        let c := cleanSegs (gone f.1.cell) i true n 0 f.1.pmm
        ⟨c.pmm, n, some f.1.cell, true, ERR_NO_MEMORY, f.1.taken, c.given, c.reads⟩

/-- the segments the VM records -/
def AllocCall.segs (o : AllocCall) : List PhyMemSeg :=
  match o.memSeg with
  | some cell => (List.range o.segNum).map cell
  | none => []

/-- **Sound**: a failed call gave back each page it had obtained once, read filled records only and none after `free`,
and leaves no segment recorded; a call that succeeds has made the RAM asked for of segments in a row. -/
structure AllocSound (info : VmInfo) (o : AllocCall) : Prop where
  given : o.ret < 0 → o.given.Perm o.taken
  reads : o.ret < 0 → ∀ r ∈ o.reads, r.filled = true ∧ r.freed = false
  none : o.ret < 0 → o.segNum = 0
  size : 0 ≤ o.ret → (o.segs.map fun seg => PAGE_SIZE * seg.pgs.length).sum = info.ramSize
  row : 0 ≤ o.ret → ∀ i, i + 1 < o.segNum → ∀ cell ∈ o.memSeg, (cell (i + 1)).ipa = (cell i).ipa + VM_MEM_BLOCK_2M

/-! ## the first loop -/

section
variable {n i ipa pg : Nat} {f : SegFill}

/-- a segment is refused -/
theorem fillSegs_none (e : (pmmAllocContiguous f.pmm SEG_PAGES VM_MEM_BLOCK_SHIFT).2 = none) :
    fillSegs (n + 1) i ipa f =
      ({ f.initList i with pmm := (pmmAllocContiguous f.pmm SEG_PAGES VM_MEM_BLOCK_SHIFT).1 }, some i) := by
  rw [fillSegs, show (f.initList i).pmm = f.pmm from rfl, e]

/-- a segment is served -/
theorem fillSegs_some (e : (pmmAllocContiguous f.pmm SEG_PAGES VM_MEM_BLOCK_SHIFT).2 = some pg) :
    fillSegs (n + 1) i ipa f = fillSegs n (i + 1) ((ipa + VM_MEM_BLOCK_2M) % 2 ^ 64)
      ((f.initList i).store i ipa (pmmAllocContiguous f.pmm SEG_PAGES VM_MEM_BLOCK_SHIFT).1 pg) := by
  rw [fillSegs, show (f.initList i).pmm = f.pmm from rfl, e]

@[simp]
theorem SegFill.store_self {pmm : Pmm} : ((f.initList i).store i ipa pmm pg).cell i =
    { pgs := List.range' pg SEG_PAGES, pa := PAGE_SIZE * pg, ipa := ipa } :=
  Function.update_self _ _ _

theorem SegFill.store_of_ne {pmm : Pmm} {j : Nat} (h : j ≠ i) :
    ((f.initList i).store i ipa pmm pg).cell j = f.cell j := by
  show Function.update (Function.update f.cell i _) i _ j = _
  rw [Function.update_of_ne h, Function.update_of_ne h]

end

/-- the records before `i` are not touched -/
theorem fillSegs_before : ∀ (n i ipa : Nat) (f : SegFill) {j : Nat}, j < i →
    (fillSegs n i ipa f).1.cell j = f.cell j := by
  intro n
  induction n with
  | zero => exact fun _ _ _ _ _ => rfl
  | succ n ih =>
    intro i ipa f j hj
    cases e : (pmmAllocContiguous f.pmm SEG_PAGES VM_MEM_BLOCK_SHIFT).2 with
    | none =>
      rw [fillSegs_none e]
      exact Function.update_of_ne (by lia) _ _
    | some pg => rw [fillSegs_some e, ih _ _ _ (by lia), SegFill.store_of_ne (by lia)]

/-- a segment is refused as in a row of requests -/
theorem fillSegs_refused : ∀ (n i ipa : Nat) (f : SegFill),
    (fillSegs n i ipa f).2 = none ↔ segsServed n f.pmm = true := by
  intro n
  induction n with
  | zero => exact fun _ _ _ => ⟨fun _ => rfl, fun _ => rfl⟩
  | succ n ih =>
    intro i ipa f
    rw [segsServed, show 1 <<< (VM_MEM_BLOCK_SHIFT - PAGE_SIZE_SHIFT) = SEG_PAGES from rfl]
    cases e : (pmmAllocContiguous f.pmm SEG_PAGES VM_MEM_BLOCK_SHIFT).2 with
    | none =>
      rw [fillSegs_none e]
      simp
    | some pg =>
      rw [fillSegs_some e, ih]
      simp [SegFill.store]

/-- **The records** after the loop: the pages of a segment each, and the IPAs in a row -/
theorem fillSegs_cells : ∀ (n i ipa : Nat) (f : SegFill), ipa < 2 ^ 64 → (fillSegs n i ipa f).2 = none → ∀ j < n,
    ((fillSegs n i ipa f).1.cell (i + j)).pgs.length = SEG_PAGES ∧
      ((fillSegs n i ipa f).1.cell (i + j)).ipa = (ipa + j * VM_MEM_BLOCK_2M) % 2 ^ 64 := by
  intro n
  induction n with
  | zero => exact fun _ _ _ _ _ j hj => absurd hj (Nat.not_lt_zero j)
  | succ n ih =>
    intro i ipa f hipa hnone j hj
    cases e : (pmmAllocContiguous f.pmm SEG_PAGES VM_MEM_BLOCK_SHIFT).2 with
    | none =>
      rw [fillSegs_none e] at hnone
      cases hnone
    | some pg =>
      rw [fillSegs_some e] at hnone ⊢
      rcases j with _ | j
      · rw [Nat.add_zero i, fillSegs_before _ _ _ _ (show i < i + 1 by lia), SegFill.store_self, Nat.zero_mul,
          Nat.add_zero, Nat.mod_eq_of_lt hipa]
        exact ⟨List.length_range', rfl⟩
      · have hj' := ih (i + 1) _ _ (Nat.mod_lt _ (by decide)) hnone j (by lia)
        rw [show i + 1 + j = i + (j + 1) by lia, Nat.mod_add_mod, Nat.add_assoc] at hj'
        rw [Nat.add_one_mul, Nat.add_comm (j * VM_MEM_BLOCK_2M)]
        exact hj'

/-- the loop of `Mem.Segments` -/
theorem fillSegs_segments : ∀ (n i ipa : Nat) (f : SegFill), (fillSegs n i ipa f).2 = none →
    allocSegs n f.pmm ipa = ((fillSegs n i ipa f).1.pmm,
      some ((List.range n).map fun j => (fillSegs n i ipa f).1.cell (i + j))) := by
  intro n
  induction n with
  | zero => exact fun _ _ _ _ => rfl
  | succ n ih =>
    intro i ipa f hnone
    rw [allocSegs, show 1 <<< (VM_MEM_BLOCK_SHIFT - PAGE_SIZE_SHIFT) = SEG_PAGES from rfl]
    cases e : (pmmAllocContiguous f.pmm SEG_PAGES VM_MEM_BLOCK_SHIFT).2 with
    | none =>
      rw [fillSegs_none e] at hnone
      cases hnone
    | some pg =>
      rw [fillSegs_some e] at hnone ⊢
      have hrest := ih _ _ _ hnone
      rw [show ((f.initList i).store i ipa (pmmAllocContiguous f.pmm SEG_PAGES VM_MEM_BLOCK_SHIFT).1 pg).pmm =
        (pmmAllocContiguous f.pmm SEG_PAGES VM_MEM_BLOCK_SHIFT).1 from rfl] at hrest
      dsimp only
      rw [hrest, List.range_succ_eq_map, List.map_cons, List.map_map, Option.map_some, Nat.add_zero i,
        fillSegs_before _ _ _ _ (show i < i + 1 by lia), SegFill.store_self]
      refine congrArg _ (congrArg _ (congrArg _ (List.map_congr_left fun j _ => ?_)))
      rw [Function.comp, Nat.succ_eq_add_one, show i + 1 + j = i + (j + 1) by lia]

theorem allocSegs_refused : ∀ (n : Nat) (pmm : Pmm) (ipa : Nat), segsServed n pmm = false →
    (allocSegs n pmm ipa).2 = none := by
  intro n
  induction n with
  | zero =>
    intro pmm ipa h
    cases h
  | succ n ih =>
    intro pmm ipa h
    rw [segsServed] at h
    rw [allocSegs]
    dsimp only at h ⊢
    split
    · rfl
    · rename_i pg e
      rw [e, Option.isSome_some, Bool.true_and] at h
      rw [ih _ _ h]
      rfl

/-! ## the function -/

/-- how many segments the function makes -/
theorem memSegCounts_nonneg {info : VmInfo} (h : ¬ memSegCounts info < 0) :
    VM_MEM_BLOCK_2M ∣ info.ramSize ∧ (memSegCounts info).toNat = info.ramSize / VM_MEM_BLOCK_2M % 2 ^ 32 ∧
      (memSegCounts info).toNat < 2 ^ 31 := by
  unfold memSegCounts at h ⊢
  split at h
  · exact absurd (show ERR_INVALID_ARGS < 0 by decide) h
  · rename_i hmask
    rw [if_neg hmask]
    dsimp only at h ⊢
    have hdvd := (and_mask_eq_zero info.ramSize).mp (by simpa using hmask)
    have hshift : info.ramSize >>> VM_MEM_BLOCK_SHIFT = info.ramSize / VM_MEM_BLOCK_2M :=
      Nat.shiftRight_eq_div_pow _ _
    rw [hshift] at h ⊢
    split at h
    · rename_i hlt
      rw [if_pos hlt, Int.toNat_natCast]
      exact ⟨hdvd, rfl, hlt⟩
    · have := Nat.mod_lt (info.ramSize / VM_MEM_BLOCK_2M) (show 0 < 2 ^ 32 by decide)
      omega

/-- the count is the size unless it was cut to an `int` -/
theorem memSegCounts_size {info : VmInfo} (h : ¬ memSegCounts info < 0) :
    (memSegCounts info).toNat * VM_MEM_BLOCK_2M = info.ramSize ↔ info.ramSize < 2 ^ 52 := by
  obtain ⟨hdvd, hn, hlt⟩ := memSegCounts_nonneg h
  rw [hn] at hlt ⊢
  unfold VM_MEM_BLOCK_2M at *
  omega

/-- **`lkhvAllocMem`** is this function, where no freed record is read. -/
theorem allocMem_segments (info : VmInfo) (pmm : Pmm) (mem : VmMem) (memSeg block : Option (Nat → PhyMemSeg))
    (gone : (Nat → PhyMemSeg) → Nat → PhyMemSeg) (h : ¬ memSegCounts info < 0) :
    lkhvAllocMem info pmm mem block.isSome = if (allocMem info pmm mem.segNum memSeg block gone).freed then none
      else some ((allocMem info pmm mem.segNum memSeg block gone).pmm,
        { mem with segNum := (allocMem info pmm mem.segNum memSeg block gone).segNum
                   memSeg := (allocMem info pmm mem.segNum memSeg block gone).memSeg.map fun cell =>
                     (List.range (allocMem info pmm mem.segNum memSeg block gone).segNum).map cell },
        (allocMem info pmm mem.segNum memSeg block gone).ret) := by
  rw [lkhvAllocMem, allocMem, if_neg h, if_neg h]
  cases block with
  | none => rfl
  | some cell =>
    simp only [Option.isSome_some, if_true]
    cases e : (fillSegs (memSegCounts info).toNat 0 info.ipaStart ⟨pmm, cell, []⟩).2 with
    | none =>
      have hrow := fillSegs_segments _ _ _ _ e
      rw [show SegFill.pmm ⟨pmm, cell, []⟩ = pmm from rfl] at hrow
      rw [hrow]
      simp
    | some i =>
      rw [allocSegs_refused]
      · simp
      · rw [← Bool.not_eq_true, ← fillSegs_refused (memSegCounts info).toNat 0 info.ipaStart ⟨pmm, cell, []⟩, e]
        simp

theorem allocMem_segments_one : (lkhvAllocMem segInfo (pmmAddArena smallPmm segArena)
    ((smallSys fun _ => 0).vm 0) true).map (·.2.2) = some NO_ERROR := by
  have h := allocMem_segments segInfo (pmmAddArena smallPmm segArena) ((smallSys fun _ => 0).vm 0) none
    (some fun _ => ⟨[], 0, 0⟩) id (by decide)
  rw [Option.isSome_some] at h
  rw [h]
  decide +kernel

/-- the sizes of a row of segments -/
theorem sum_row {cell : Nat → PhyMemSeg} {n : Nat} (h : ∀ j < n, (cell j).pgs.length = SEG_PAGES) :
    (((List.range n).map cell).map fun seg => PAGE_SIZE * seg.pgs.length).sum = n * VM_MEM_BLOCK_2M := by
  have hconst : ((List.range n).map cell).map (fun seg => PAGE_SIZE * seg.pgs.length) =
      (List.range n).map fun _ => VM_MEM_BLOCK_2M := by
    rw [List.map_map]
    refine List.map_congr_left fun j hj => ?_
    rw [Function.comp, h j (List.mem_range.mp hj)]
    rfl
  rw [hconst, List.map_const', List.sum_replicate_nat, List.length_range]

/-- numbers in a row, which does not wrap at `w` -/
theorem row_iff (b n : Nat) {w x : Nat} (hx : x < w) :
    (∀ i, i + 1 < n → (x + (i + 1) * b) % w = (x + i * b) % w + b) ↔ x + (n - 1) * b < w := by
  constructor
  · intro h
    have hlt : ∀ i, i < n → x + i * b < w := by
      intro i
      induction i with
      | zero =>
        intro _
        lia
      | succ i ih =>
        intro hi
        have hnext := h i hi
        rw [Nat.mod_eq_of_lt (ih (by lia)), Nat.add_assoc, ← Nat.add_one_mul] at hnext
        rw [← hnext]
        exact Nat.mod_lt _ (by lia)
    rcases n with _ | n
    · rw [Nat.zero_sub, Nat.zero_mul]
      exact hx
    · exact hlt n (by lia)
  · intro h i hi
    have hle : (i + 1) * b ≤ (n - 1) * b := Nat.mul_le_mul_right b (by lia)
    have hsucc : (i + 1) * b = i * b + b := Nat.add_one_mul i b
    rw [Nat.mod_eq_of_lt (by lia), Nat.mod_eq_of_lt (by lia)]
    lia

/-- the first record that the clean-up loop looks at is freed -/
theorem cleanSegs_freed (cell : Nat → PhyMemSeg) (filled n i : Nat) (pmm : Pmm) :
    ∃ r ∈ (cleanSegs cell filled true (n + 1) i pmm).reads, r.freed = true := by
  rw [cleanSegs]
  dsimp only
  split <;> exact ⟨_, List.mem_cons_self, rfl⟩

/-- **`lkhv_alloc_mem`** does what it should if and only if the size is refused and the VM had no segment, or `malloc`
serves its block (or none is asked for), `pmm_alloc_contiguous` each segment, the number of segments fits an `int` and
the addresses do not wrap. -/
theorem allocMem_sound_iff (info : VmInfo) (pmm : Pmm) (segNum : Nat) (memSeg block : Option (Nat → PhyMemSeg))
    (gone : (Nat → PhyMemSeg) → Nat → PhyMemSeg) (hipa : info.ipaStart < 2 ^ 64) :
    AllocSound info (allocMem info pmm segNum memSeg block gone) ↔
      (memSegCounts info < 0 ∧ segNum = 0) ∨
        (0 ≤ memSegCounts info ∧ block.isNone ∧ memSegCounts info = 0) ∨
        (0 ≤ memSegCounts info ∧ block.isSome ∧ segsServed (memSegCounts info).toNat pmm = true ∧
          info.ramSize < 2 ^ 52 ∧ info.ipaStart + ((memSegCounts info).toNat - 1) * VM_MEM_BLOCK_2M < 2 ^ 64) := by
  have hargs : ERR_INVALID_ARGS < 0 := by decide
  have hnomem : ERR_NO_MEMORY < 0 := by decide
  rw [allocMem]
  by_cases hneg : memSegCounts info < 0
  · -- the size is refused
    rw [if_pos hneg]
    constructor
    · intro h
      exact .inl ⟨hneg, h.none hargs⟩
    · intro h
      have hnum : segNum = 0 := by
        rcases h with ⟨-, h⟩ | ⟨h, -⟩ | ⟨h, -⟩
        · exact h
        · lia
        · lia
      exact ⟨fun _ => List.Perm.refl _, fun _ _ hr => absurd hr List.not_mem_nil, fun _ => hnum,
        fun h0 => absurd hargs (not_lt.mpr h0), fun h0 => absurd hargs (not_lt.mpr h0)⟩
  rw [if_neg hneg]
  cases block with
  | none =>
    dsimp only
    constructor
    · intro h
      have h0 : (memSegCounts info).toNat = 0 := h.none hnomem
      exact .inr (.inl ⟨by lia, rfl, by lia⟩)
    · intro h
      have h0 : memSegCounts info = 0 := by
        rcases h with ⟨h, -⟩ | ⟨-, -, h⟩ | ⟨-, h, -⟩
        · exact absurd h hneg
        · exact h
        · cases h
      refine ⟨fun _ => List.Perm.refl _, fun _ _ hr => absurd hr List.not_mem_nil, fun _ => ?_,
        fun hp => absurd hnomem (not_lt.mpr hp), fun hp => absurd hnomem (not_lt.mpr hp)⟩
      rw [h0]
      rfl
  | some cell =>
    dsimp only
    cases e : (fillSegs (memSegCounts info).toNat 0 info.ipaStart ⟨pmm, cell, []⟩).2 with
    | some i =>
      -- a segment is refused, so there is one, and its record is read after `free`
      have hserved : ¬ segsServed (memSegCounts info).toNat pmm = true := by
        rw [← fillSegs_refused (memSegCounts info).toNat 0 info.ipaStart ⟨pmm, cell, []⟩, e]
        simp
      constructor
      · intro h
        cases hn : (memSegCounts info).toNat with
        | zero =>
          rw [hn] at hserved
          exact absurd rfl hserved
        | succ n =>
          obtain ⟨r, hr, hfreed⟩ := cleanSegs_freed
            (gone (fillSegs (memSegCounts info).toNat 0 info.ipaStart ⟨pmm, cell, []⟩).1.cell) i n 0
            (fillSegs (memSegCounts info).toNat 0 info.ipaStart ⟨pmm, cell, []⟩).1.pmm
          have hreads := h.reads hnomem r
          dsimp only at hreads
          rw [hn] at hreads hr
          have hlive := (hreads hr).2
          rw [hfreed] at hlive
          cases hlive
      · rintro (⟨h, -⟩ | ⟨-, h, -⟩ | ⟨-, -, h, -⟩)
        · exact absurd h hneg
        · cases h
        · exact absurd h hserved
    | none =>
      have hserved := (fillSegs_refused (memSegCounts info).toNat 0 info.ipaStart ⟨pmm, cell, []⟩).mp e
      have hcells := fillSegs_cells _ _ _ _ hipa e
      have hsum := sum_row fun j hj => by
        have := (hcells j hj).1
        rwa [Nat.zero_add] at this
      have hrow := row_iff VM_MEM_BLOCK_2M (memSegCounts info).toNat hipa
      have hsize := memSegCounts_size hneg
      dsimp only
      have hipas : ∀ j < (memSegCounts info).toNat,
          ((fillSegs (memSegCounts info).toNat 0 info.ipaStart ⟨pmm, cell, []⟩).1.cell j).ipa =
            (info.ipaStart + j * VM_MEM_BLOCK_2M) % 2 ^ 64 := by
        intro j hj
        have := (hcells j hj).2
        rwa [Nat.zero_add] at this
      constructor
      · intro h
        refine .inr (.inr ⟨by lia, rfl, hserved, ?_, hrow.mp fun i hi => ?_⟩)
        · rw [← hsize, ← hsum]
          exact h.size le_rfl
        · rw [← hipas i (by lia), ← hipas (i + 1) hi]
          exact h.row le_rfl i hi _ rfl
      · rintro (⟨h, -⟩ | ⟨-, h, -⟩ | ⟨-, -, -, h1, h2⟩)
        · exact absurd h hneg
        · cases h
        · have hpos : ¬ (0 : Int) < 0 := by decide
          refine ⟨fun h => absurd h hpos, fun h => absurd h hpos, fun h => absurd h hpos,
            fun _ => hsum.trans (hsize.mpr h1), fun _ i hi c hc => ?_⟩
          obtain rfl := Option.some.inj hc
          have hi' : i + 1 < (memSegCounts info).toNat := hi
          rw [hipas (i + 1) hi', hipas i (by lia)]
          exact hrow.mpr h2 i hi'

/-- a VM of one segment, whose record was zero -/
theorem allocMem_sound_one : AllocSound segInfo
    (allocMem segInfo (pmmAddArena smallPmm segArena) 0 none (some fun _ => ⟨[], 0, 0⟩) id) :=
  (allocMem_sound_iff segInfo (pmmAddArena smallPmm segArena) 0 none (some fun _ => ⟨[], 0, 0⟩) id (by decide)).mpr
    (.inr (.inr ⟨by decide, rfl, by decide +kernel, by decide, by decide⟩))

/-- **Two segments, and memory for one**: the first record is read when the array is freed, the second was never
filled, and two segments stay recorded. -/
theorem allocMem_fails : ¬ ∀ (info : VmInfo) (pmm : Pmm) (block : Option (Nat → PhyMemSeg))
    (gone : (Nat → PhyMemSeg) → Nat → PhyMemSeg), info.ipaStart < 2 ^ 64 →
    AllocSound info (allocMem info pmm 0 none block gone) := by
  intro h
  have hs := h ⟨0x400000, 0x40000000⟩ (pmmAddArena smallPmm segArena) (some fun _ => ⟨[], 0, 0⟩) id (by decide)
  obtain ⟨hret, hreads⟩ : (allocMem ⟨0x400000, 0x40000000⟩ (pmmAddArena smallPmm segArena) 0 none
      (some fun _ => ⟨[], 0, 0⟩) id).ret < 0 ∧ (allocMem ⟨0x400000, 0x40000000⟩ (pmmAddArena smallPmm segArena) 0 none
      (some fun _ => ⟨[], 0, 0⟩) id).reads = [⟨true, true⟩, ⟨false, true⟩] := by
    decide +kernel
  have hread := hs.reads hret ⟨false, true⟩ (by rw [hreads]; simp)
  cases hread.1

end LkHv
