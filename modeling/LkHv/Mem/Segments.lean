import LkHv.Stage2.Meaning

/-!
# The memory of a VM (`hv_mem.c`)

The RAM of a VM is a row of 2M segments, each a run of pages from the allocator.

* `lkhvAllocMem`, `lkhvMapRam`, `lkhvUnmapRam`, `lkhvMapTestSerial`, `lkhvVmFreeMem`   the source's; `none`
  is undefined behaviour (a read through a null or freed `mem_seg`);
* `EditOf`             what an edit of the tables of one VM does to everything else;
* `Covered`            the RAM a VM's tables map is in its segments, and their tables are there;
* `lkhvMapRam_spec`, `lkhvUnmapRam_spec`   mapping keeps this, and unmapping leaves no RAM mapped.
-/

namespace LkHv
open Radix

/-- the fields of `struct vm_info` that the memory functions read -/
structure VmInfo where
  ramSize : Nat
  ipaStart : Nat

/-! ## the functions -/

/-- `mem_seg_counts`; the count is cut to an `int` -/
def memSegCounts (info : VmInfo) : Int :=
  if info.ramSize &&& VM_MEM_BLOCK_MASK ≠ 0 then ERR_INVALID_ARGS
  else
    let n : Nat := (info.ramSize >>> VM_MEM_BLOCK_SHIFT) % 2 ^ 32
    if n < 2 ^ 31 then n else n - (2 ^ 32 : Int)

/-- the loop of `lkhv_alloc_mem`; no list if a segment was refused -/
def allocSegs : Nat → Pmm → Nat → Pmm × Option (List PhyMemSeg)
  | 0, pmm, _ => (pmm, some [])
  | n + 1, pmm, ipa =>
    let r := pmmAllocContiguous pmm (1 <<< (VM_MEM_BLOCK_SHIFT - PAGE_SIZE_SHIFT)) VM_MEM_BLOCK_SHIFT
    match r.2 with
    | none => (r.1, none)
    | some pg =>
      let t := allocSegs n r.1 ((ipa + VM_MEM_BLOCK_2M) % 2 ^ 64)
      let pgs := List.range' pg (1 <<< (VM_MEM_BLOCK_SHIFT - PAGE_SIZE_SHIFT))
      (t.1, t.2.map fun segs => { pgs := pgs, pa := PAGE_SIZE * pg, ipa := ipa } :: segs)

/-- `pmm_alloc_contiguous` serves `n` requests for a segment in a row -/
def segsServed : Nat → Pmm → Bool
  | 0, _ => true
  | n + 1, pmm =>
    let r := pmmAllocContiguous pmm (1 <<< (VM_MEM_BLOCK_SHIFT - PAGE_SIZE_SHIFT)) VM_MEM_BLOCK_SHIFT
    r.2.isSome && segsServed n r.1

theorem allocSegs_served : ∀ {n : Nat} {pmm : Pmm} (ipa : Nat), segsServed n pmm = true →
    ∃ segs, (allocSegs n pmm ipa).2 = some segs := by
  intro n
  induction n with
  | zero =>
    intro pmm ipa _
    exact ⟨[], rfl⟩
  | succ n ih =>
    intro pmm ipa h
    rw [segsServed, Bool.and_eq_true] at h
    obtain ⟨pg, hpg⟩ := Option.isSome_iff_exists.mp h.1
    obtain ⟨segs, hs⟩ := ih ((ipa + VM_MEM_BLOCK_2M) % 2 ^ 64) h.2
    simp only [allocSegs, hpg, hs]
    exact ⟨_, rfl⟩

/-- `lkhv_alloc_mem`, where `malloc` may fail.  The exit for a refused segment reads `mem_seg` after `free`. -/
def lkhvAllocMem (info : VmInfo) (pmm : Pmm) (mem : VmMem) (malloc : Bool) : Option (Pmm × VmMem × Int) :=
  if memSegCounts info < 0 then some (pmm, mem, ERR_INVALID_ARGS)
  else
    let segNum := (memSegCounts info).toNat
    if malloc then
      let r := allocSegs segNum pmm info.ipaStart
      match r.2 with
      | none => none
      | some segs => some (r.1, { mem with segNum := segNum, memSeg := some segs }, 0)
    else some (pmm, { mem with segNum := segNum, memSeg := none }, ERR_NO_MEMORY)

/-- the entries of `mem_seg` the loops read -/
def VmMem.segs (mem : VmMem) : Option (List PhyMemSeg) := if mem.segNum = 0 then some [] else mem.memSeg

/-- the loop of `lkhv_unmap_ram`, which does not look at the results -/
def unmapSegs (cfg : Config) : List PhyMemSeg → Hv → VmMem → Hv × VmMem
  | [], s, mem => (s, mem)
  | seg :: segs, s, mem =>
    let r := archMemUnmap cfg s mem seg.ipa VM_MEM_BLOCK_2M
    unmapSegs cfg segs r.1 r.2.1

/-- `lkhv_unmap_ram` -/
def lkhvUnmapRam (cfg : Config) (s : Hv) (mem : VmMem) : Option (Hv × VmMem) :=
  mem.segs.map fun segs =>
    let r := unmapSegs cfg segs s mem
    memUnlock cfg r.1 r.2

/-- the loop of `lkhv_map_ram` -/
def mapSegs (cfg : Config) : List PhyMemSeg → Hv → VmMem → Hv × VmMem × Int
  | [], s, mem => (s, mem, 0)
  | seg :: segs, s, mem =>
    let r := archMemMap cfg s mem seg.pa seg.ipa VM_MEM_BLOCK_2M
    if r.2.2 < 0 then r else mapSegs cfg segs r.1 r.2.1

/-- `lkhv_map_ram` -/
def lkhvMapRam (cfg : Config) (s : Hv) (mem : VmMem) : Option (Hv × VmMem × Int) :=
  mem.segs.bind fun segs =>
    let r := mapSegs cfg segs s mem
    let u := memUnlock cfg r.1 r.2.1
    if r.2.2 < 0 then (lkhvUnmapRam cfg u.1 u.2).map fun t => (t.1, t.2, r.2.2)
    else some (u.1, u.2, 0)

/-- the page of the test serial -/
def SERIAL : Nat := 0x9000000

/-- `lkhv_map_test_serial` -/
def lkhvMapTestSerial (cfg : Config) (s : Hv) (mem : VmMem) : Hv × VmMem × Int :=
  archMemMap cfg s mem SERIAL SERIAL 0x1000

/-- the loop of `lkhv_vm_free_mem` -/
def freeSegs : List PhyMemSeg → Pmm → Pmm
  | [], pmm => pmm
  | seg :: segs, pmm => if seg.pa ≠ 0 then freeSegs segs (pmmFree pmm seg.pgs) else pmm

/-- `lkhv_vm_free_mem` -/
def lkhvVmFreeMem (pmm : Pmm) (mem : VmMem) : Option (Pmm × VmMem) :=
  mem.segs.map fun segs => (freeSegs segs pmm, { mem with memSeg := none })

/-- the pages on the lists of `mem_seg` -/
def VmMem.pages (mem : VmMem) : List Nat := (mem.memSeg.getD []).flatMap PhyMemSeg.pgs

/-! ## segments -/

/-- a segment whose rounds are of level `d` -/
structure SegShape (d : Nat) (seg : PhyMemSeg) : Prop where
  pgs : seg.pgs = List.range' (seg.pa / PAGE_SIZE) 512
  pa : VM_MEM_BLOCK_2M ∣ seg.pa
  pos : seg.pa ≠ 0
  oa : seg.pa + VM_MEM_BLOCK_2M ≤ 2 ^ 48
  level : d ≤ 1 ∧ (d = 1 ↔ VM_MEM_BLOCK_2M ∣ seg.ipa)

/-- page `j` of a row of segments -/
def segPage (cfg : Config) (segs : List PhyMemSeg) (j : Nat) : Nat :=
  match segs[j / 512]? with
  | some seg => cfg.page seg.ipa (j % 512)
  | none => 0

theorem segPage_eq {cfg : Config} {segs : List PhyMemSeg} {seg : PhyMemSeg} {i o : Nat}
    (h : segs[i]? = some seg) (ho : o < 512) : segPage cfg segs (512 * i + o) = cfg.page seg.ipa o := by
  rw [segPage, Nat.mul_add_div (by decide), Nat.div_eq_of_lt ho, Nat.add_zero, h, Nat.mul_add_mod,
    Nat.mod_eq_of_lt ho]

theorem segPage_lt (cfg : Config) (segs : List PhyMemSeg) (j : Nat) : segPage cfg segs j < cfg.span := by
  rw [segPage]
  split
  · exact cfg.page_lt _ _
  · exact cfg.span_pos

section
variable {cfg : Config} {d : Nat} {seg : PhyMemSeg}

theorem span_ge_block (cfg : Config) : VM_MEM_BLOCK_2M ≤ PAGE_SIZE * cfg.span := by
  obtain ⟨c, hc⟩ := cfg.dvd_span
  have := cfg.span_pos
  rw [hc] at this ⊢
  simp only [VM_MEM_BLOCK_2M, PAGE_SIZE]
  omega

/-- a segment is mapped with one block or with pages only -/
theorem SegShape.uniform (h : SegShape d seg) (pa : Nat) (hpa : d = 1 → VM_MEM_BLOCK_2M ∣ pa) :
    Uniform VM_MEM_BLOCK_2M (fun off => blockStep (pa + off) (seg.ipa + off) (VM_MEM_BLOCK_2M - off)) d := by
  refine ⟨h.level.1, fun m hm hd => ?_⟩
  by_cases e : d = 1
  · subst e
    have h1 := hpa rfl
    have h2 := h.level.2.mp rfl
    obtain rfl : m = 0 := by
      simp only [VM_MEM_BLOCK_2M, PAGE_SIZE] at hm
      obtain ⟨c, rfl⟩ := hd
      omega
    exact (blockStep_iff _ _ _).mpr ⟨h1, h2, Nat.dvd_refl _⟩
  · have h2 : ¬ VM_MEM_BLOCK_2M ∣ seg.ipa := fun hx => e (h.level.2.mpr hx)
    rw [decide_eq_false e, ← Bool.not_eq_true, blockStep_iff]
    rintro ⟨-, h3, h4⟩
    simp only [VM_MEM_BLOCK_2M, PAGE_SIZE] at *
    omega

end

/-! ## edits of one VM -/

section
variable {V : Type} [DecidableEq V] {cfg : Config} {s s' s'' : Hv} {am : V → ArchVmMem}
  {lab lab' lab'' : Nat → Option (Label V)} {v : V} {vm vm' vm'' : VmMem}

/-- the tables of `v` are edited: the invariant stays, and so does everything of the other VMs -/
structure EditOf (cfg : Config) (s s' : Hv) (am : V → ArchVmMem) (v : V) (vm vm' : VmMem)
    (lab lab' : Nat → Option (Label V)) : Prop where
  tables : Tables cfg s' (setAm am v vm') lab'
  small : SmallLeaves cfg s' (setAm am v vm')
  grow : Grow s s' lab lab'
  segs : SameSegs vm vm'
  walks : ∀ w, w ≠ v → ∀ k < cfg.span, leafWalk cfg s'.mem (am w).vttbr k = leafWalk cfg s.mem (am w).vttbr k
  keep : ∀ w, w ≠ v → ∀ d k, k < cfg.span → HasTable cfg s (am w) d k → HasTable cfg s' (am w) d k

theorem EditOf.refl (h : Tables cfg s am lab) (hsm : SmallLeaves cfg s am) (ha : vm.archMem = am v) :
    EditOf cfg s s am v vm vm lab lab := by
  have e : setAm am v vm = am := by rw [setAm, ha, Function.update_eq_self]
  exact ⟨by rwa [e], by rwa [e], Grow.refl _ _, ⟨rfl, rfl⟩, fun _ _ _ _ => rfl, fun _ _ _ _ _ h => h⟩

theorem EditOf.trans (h : EditOf cfg s s' am v vm vm' lab lab')
    (h' : EditOf cfg s' s'' (setAm am v vm') v vm' vm'' lab' lab'') : EditOf cfg s s'' am v vm vm'' lab lab'' := by
  obtain ⟨h1, h2, h3, h4, h6, h7⟩ := h'
  rw [setAm_setAm] at h1 h2
  refine ⟨h1, h2, h.grow.trans h3, ⟨h4.1.trans h.segs.1, h4.2.trans h.segs.2⟩, fun w hw k hk => ?_,
    fun w hw d k hk ht => ?_⟩
  · have := h6 w hw k hk
    rw [setAm, Function.update_of_ne hw] at this
    rw [this, h.walks w hw k hk]
  · have := h7 w hw d k hk
    rw [setAm, Function.update_of_ne hw] at this
    exact this (h.keep w hw d k hk ht)

theorem Upto.editOf {ipa len : Nat} {block : Nat → Bool} {tgt : Nat → Option Nat} {m : Nat}
    (h : Upto cfg s s' am v vm vm' ipa len block tgt lab lab' m) (hsm : SmallLeaves cfg s am) :
    EditOf cfg s s' am v vm vm' lab lab' := by
  refine ⟨h.tables, h.small hsm, h.grow, h.segs, fun w hw k hk => ?_, fun w hw d k hk ht => ?_⟩
  · have := h.frame w k hk fun e => absurd e hw
    rwa [setAm, Function.update_of_ne hw] at this
  · have := h.keep 1 (by simp) w d k hk fun e => absurd e hw
    rw [setAm, Function.update_of_ne hw] at this
    exact this ht

/-- `mem_unlock` after an edit -/
theorem EditOf.unlock (h : EditOf cfg s s' am v vm vm' lab lab') :
    EditOf cfg s (memUnlock cfg s' vm').1 am v vm (memUnlock cfg s' vm').2 lab lab' := by
  obtain ⟨h1, h2, -, h4, h5, -, h6⟩ := memUnlock_hv cfg s' vm'
  have hs : SameSegs vm' (memUnlock cfg s' vm').2 := by
    rw [memUnlock]
    split <;> exact ⟨rfl, rfl⟩
  have e : setAm am v (memUnlock cfg s' vm').2 = setAm am v vm' := by rw [setAm, setAm, h6]
  refine ⟨?_, ?_, ?_, ⟨hs.1.trans h.segs.1, hs.2.trans h.segs.2⟩, ?_, ?_⟩
  · rw [e]
    refine h.tables.congr h1 h2 ?_
    rw [h4, h5]
    exact h.tables.loaded
  · rw [e]
    intro w x hx l p hl
    rw [h2] at hl
    exact h.small w x hx l p hl
  · refine { h.grow with ram := ?_, nonfree := ?_, refused := ?_, vttbrEl2 := ?_, others := ?_ }
    · rw [h1]
      exact h.grow.ram
    · rw [h1]
      exact h.grow.nonfree
    · rw [h1]
      exact h.grow.refused
    · rw [h4]
      exact h.grow.vttbrEl2
    · rw [h5]
      exact h.grow.others
  · rw [h2]
    exact h.walks
  · intro w hw d k hk ht
    have := h.keep w hw d k hk ht
    rwa [HasTable, h2]

/-! ## RAM and its tables -/

/-- the RAM that `a` maps is in the first `M` pages of the segments, whose tables of level `d` exist -/
structure Covered (cfg : Config) (s : Hv) (a : ArchVmMem) (d : Nat) (segs : List PhyMemSeg) (M : Nat) :
    Prop where
  le : M ≤ 512 * segs.length
  mapped : ∀ k < cfg.span, ∀ p, pageWalk cfg s.mem a.vttbr k = some p → s.pmm.Ram p →
    (∃ j < M, k = segPage cfg segs j) ∧ p ∈ segs.flatMap PhyMemSeg.pgs
  tables : ∀ j < M, HasTable cfg s a d (segPage cfg segs j)
  args : ∀ i seg, segs[i]? = some seg → oaOut seg.ipa ≠ 0 → M ≤ 512 * i

/-- `a` maps no RAM -/
def NoRam (cfg : Config) (s : Hv) (a : ArchVmMem) : Prop :=
  ∀ k < cfg.span, ∀ p, pageWalk cfg s.mem a.vttbr k = some p → ¬ s.pmm.Ram p

theorem NoRam.covered {a : ArchVmMem} (h : NoRam cfg s a) (d : Nat) (segs : List PhyMemSeg) :
    Covered cfg s a d segs 0 :=
  ⟨Nat.zero_le _, fun k hk p hp hr => absurd hr (h k hk p hp), fun j hj => absurd hj (Nat.not_lt_zero j),
    fun _ _ _ _ => Nat.zero_le _⟩

/-- changes that leave the translations, the tables and the arenas of a VM alone -/
theorem Covered.congr {a a' : ArchVmMem} {d M : Nat} {segs : List PhyMemSeg} (h : Covered cfg s a d segs M)
    (hw : ∀ k < cfg.span, leafWalk cfg s'.mem a'.vttbr k = leafWalk cfg s.mem a.vttbr k)
    (ht : ∀ k < cfg.span, HasTable cfg s a d k → HasTable cfg s' a' d k)
    (hr : ∀ p, s'.pmm.Ram p ↔ s.pmm.Ram p) : Covered cfg s' a' d segs M where
  le := h.le
  mapped k hk p hp hp' := by
    rw [pageWalk, hw k hk] at hp
    exact h.mapped k hk p hp ((hr p).mp hp')
  tables j hj := ht _ (segPage_lt cfg segs j) (h.tables j hj)
  args := h.args

theorem NoRam.congr {a a' : ArchVmMem} (h : NoRam cfg s a)
    (hw : ∀ k < cfg.span, leafWalk cfg s'.mem a'.vttbr k = leafWalk cfg s.mem a.vttbr k)
    (hr : ∀ p, s'.pmm.Ram p ↔ s.pmm.Ram p) : NoRam cfg s' a' := by
  intro k hk p hp hp'
  rw [pageWalk, hw k hk] at hp
  exact h k hk p hp ((hr p).mp hp')

/-! ## one segment -/

theorem oaOut_lt {x : Nat} (h : oaOut x = 0) : x < 2 ^ 48 := by
  rw [oaOut, Nat.shiftRight_eq_div_pow] at h
  have := Nat.lt_of_div_eq_zero (by decide : 0 < 2 ^ 48) h
  exact this

/-- the test for a block as the two loops make it on a segment -/
def segBlock (pa : Nat) (seg : PhyMemSeg) (off : Nat) : Bool :=
  blockStep (pa + off) (seg.ipa + off) (VM_MEM_BLOCK_2M - off)

theorem archMemMap_seg {d : Nat} {seg : PhyMemSeg} (hs : SegShape d seg) (h : Tables cfg s am lab)
    (ha : vm.archMem = am v) (hc : (am v).st2Table = 0 → RootClean cfg s) :
    ∃ lab' m, Upto cfg s (archMemMap cfg s vm seg.pa seg.ipa VM_MEM_BLOCK_2M).1 am v vm
        (archMemMap cfg s vm seg.pa seg.ipa VM_MEM_BLOCK_2M).2.1 seg.ipa VM_MEM_BLOCK_2M
        (segBlock seg.pa seg) (fun o => some (seg.pa / PAGE_SIZE + o)) lab lab' m ∧ m ≤ 512 ∧
      ((archMemMap cfg s vm seg.pa seg.ipa VM_MEM_BLOCK_2M).2.2 < 0 ∨ m = 512) ∧ (oaOut seg.ipa ≠ 0 → m = 0) := by
  by_cases hi : oaOut seg.ipa = 0
  · have hpa : seg.pa < 2 ^ 48 := by
      have := hs.oa
      simp only [VM_MEM_BLOCK_2M] at this
      lia
    rw [archMemMap_loop hpa (oaOut_lt hi) (by decide)]
    obtain ⟨lab', m, hu, hend⟩ := editLoop_spec ERR_NO_MEMORY (v := v)
      (mapPlan cfg (by decide) (span_ge_block cfg) hs.oa) (Heads.true _ _) h ha hc
      (len_le_rounds VM_MEM_BLOCK_2M)
    refine ⟨lab', m, hu, ?_, ?_, fun hn => absurd hi hn⟩
    · rcases hend with ⟨-, hm, -⟩ | ⟨-, hm, -⟩ <;> simp only [PAGE_SIZE, VM_MEM_BLOCK_2M] at hm <;> lia
    · rcases hend with ⟨-, hm, -⟩ | ⟨he, -⟩
      · right
        simp only [PAGE_SIZE, VM_MEM_BLOCK_2M] at hm
        lia
      · left
        show (archMemMapLoop cfg s vm seg.pa seg.ipa VM_MEM_BLOCK_2M).2.2 < 0
        rw [archMemMapLoop, he]
        decide
  · rw [archMemMap, if_pos (.inr hi)]
    refine ⟨lab, 0, Upto.start h ha hc, Nat.zero_le _, .inl ?_, fun _ => rfl⟩
    show ERR_INVALID_ARGS < 0
    decide

/-- a segment is unmapped down to the first page whose table is missing -/
theorem archMemUnmap_seg {d : Nat} {seg : PhyMemSeg} (hs : SegShape d seg) (h : Tables cfg s am lab)
    (ha : vm.archMem = am v) (hc : (am v).st2Table = 0 → RootClean cfg s) :
    ∃ lab' m, Upto cfg s (archMemUnmap cfg s vm seg.ipa VM_MEM_BLOCK_2M).1 am v vm
        (archMemUnmap cfg s vm seg.ipa VM_MEM_BLOCK_2M).2.1 seg.ipa VM_MEM_BLOCK_2M
        (segBlock seg.ipa seg) (fun _ => none) lab lab' m ∧
      (m = 512 ∨ m < 512 ∧ ¬ HasTable cfg s (am v) d (cfg.page seg.ipa m) ∨ oaOut seg.ipa ≠ 0) := by
  by_cases hi : oaOut seg.ipa = 0
  · rw [archMemUnmap_loop (oaOut_lt hi) (by decide)]
    obtain ⟨lab', m, hu, hend⟩ := editLoop_spec ERR_NOT_FOUND (v := v)
      (unmapPlan cfg (by decide) (span_ge_block cfg)) (Heads.true _ _) h ha hc
      (len_le_rounds VM_MEM_BLOCK_2M)
    refine ⟨lab', m, hu, ?_⟩
    rcases hend with ⟨-, hm, -⟩ | ⟨-, hm, -, hstop⟩
    · left
      simp only [PAGE_SIZE, VM_MEM_BLOCK_2M] at hm
      lia
    · right
      left
      refine ⟨?_, hstop.1 d (hs.uniform _ fun e => hs.level.2.mp e)⟩
      simp only [PAGE_SIZE, VM_MEM_BLOCK_2M] at hm
      lia
  · rw [archMemUnmap, if_pos hi]
    exact ⟨lab, 0, Upto.start h ha hc, .inr (.inr hi)⟩

/-- mapping segment `i`, when those before it are done -/
theorem Covered.map {d M i m : Nat} {segs : List PhyMemSeg} {seg : PhyMemSeg}
    (h : Covered cfg s (am v) d segs M) (hs : SegShape d seg) (hi : segs[i]? = some seg) (hM : 512 * i ≤ M)
    (hu : Upto cfg s s' am v vm vm' seg.ipa VM_MEM_BLOCK_2M (segBlock seg.pa seg)
      (fun o => some (seg.pa / PAGE_SIZE + o)) lab lab' m) (hm : m ≤ 512) (ha : oaOut seg.ipa ≠ 0 → m = 0) :
    Covered cfg s' vm'.archMem d segs (max M (512 * i + m)) := by
  have huni := hs.uniform seg.pa fun _ => hs.pa
  have hlen : i < segs.length := (List.getElem?_eq_some_iff.mp hi).choose
  refine ⟨?_, fun k hk p hp hr => ?_, fun j hj => ?_, fun i' seg' hi' ha' => ?_⟩
  · have := h.le
    lia
  · by_cases hk' : ∃ o < m, k = cfg.page seg.ipa o
    · obtain ⟨o, ho, rfl⟩ := hk'
      have ho' : o < 512 := by lia
      refine ⟨⟨512 * i + o, by lia, (segPage_eq hi ho').symm⟩, ?_⟩
      rw [hu.done o ho] at hp
      cases hp
      rw [List.mem_flatMap]
      refine ⟨seg, List.mem_of_getElem? hi, ?_⟩
      rw [hs.pgs, List.mem_range'_1]
      lia
    · have := hu.frame v k hk fun _ o ho e => hk' ⟨o, ho, e⟩
      rw [setAm, Function.update_self] at this
      rw [pageWalk, this] at hp
      obtain ⟨⟨j, hj, e⟩, hp'⟩ := h.mapped k hk p hp ((hu.grow.ram p).mp hr)
      exact ⟨⟨j, by lia, e⟩, hp'⟩
  · by_cases hj' : j < M
    · have := hu.keep d (fun e => e ▸ huni) v d _ (segPage_lt cfg segs j) (fun _ => le_rfl) (h.tables j hj')
      rwa [setAm, Function.update_self] at this
    · obtain ⟨o, rfl⟩ : ∃ o, j = 512 * i + o := ⟨j - 512 * i, by lia⟩
      have ho : o < m := by lia
      rw [segPage_eq hi (by lia)]
      exact hu.here d huni o ho
  · have hM' := h.args i' seg' hi' ha'
    by_cases hlt : i' ≤ i
    · -- a segment refused before this one: nothing beyond it was done
      have hii : i' = i := by lia
      rw [hii, hi] at hi'
      cases hi'
      have := ha ha'
      lia
    · lia

/-- of the first `M` pages of the segments those before page `n` are not mapped -/
def Cleared (cfg : Config) (s : Hv) (a : ArchVmMem) (segs : List PhyMemSeg) (M n : Nat) : Prop :=
  ∀ j < M, j < n → pageWalk cfg s.mem a.vttbr (segPage cfg segs j) = none

/-- unmapping segment `i` -/
theorem Covered.unmap {d M i m : Nat} {segs : List PhyMemSeg} {seg : PhyMemSeg}
    (h : Covered cfg s (am v) d segs M) (hs : SegShape d seg) (hi : segs[i]? = some seg)
    (hu : Upto cfg s s' am v vm vm' seg.ipa VM_MEM_BLOCK_2M (segBlock seg.ipa seg) (fun _ => none) lab lab' m)
    (hend : m = 512 ∨ m < 512 ∧ ¬ HasTable cfg s (am v) d (cfg.page seg.ipa m) ∨ oaOut seg.ipa ≠ 0) :
    Covered cfg s' vm'.archMem d segs M ∧
      (Cleared cfg s (am v) segs M (512 * i) → Cleared cfg s' vm'.archMem segs M (512 * (i + 1))) := by
  have huni := hs.uniform seg.ipa fun e => hs.level.2.mp e
  have hout : ∀ k < cfg.span, (∀ o < m, k ≠ cfg.page seg.ipa o) →
      pageWalk cfg s'.mem vm'.archMem.vttbr k = pageWalk cfg s.mem (am v).vttbr k := by
    intro k hk hn
    have := hu.frame v k hk fun _ => hn
    rw [setAm, Function.update_self] at this
    rw [pageWalk, this, pageWalk]
  refine ⟨⟨h.le, fun k hk p hp hr => ?_, fun j hj => ?_, h.args⟩, fun hcl j hj hlt => ?_⟩
  · by_cases hk' : ∃ o < m, k = cfg.page seg.ipa o
    · obtain ⟨o, ho, rfl⟩ := hk'
      rw [hu.done o ho] at hp
      cases hp
    · rw [hout k hk fun o ho e => hk' ⟨o, ho, e⟩] at hp
      exact h.mapped k hk p hp ((hu.grow.ram p).mp hr)
  · have := hu.keep d (fun e => e ▸ huni) v d _ (segPage_lt cfg segs j) (fun _ => le_rfl) (h.tables j hj)
    rwa [setAm, Function.update_self] at this
  · by_cases hk' : ∃ o < m, segPage cfg segs j = cfg.page seg.ipa o
    · obtain ⟨o, ho, e⟩ := hk'
      rw [e, hu.done o ho]
    · rw [hout _ (segPage_lt cfg segs j) fun o ho e => hk' ⟨o, ho, e⟩]
      by_cases hji : j < 512 * i
      · exact hcl j hj hji
      · -- the loop did not stop before page `j`, whose table is there
        obtain ⟨o, rfl⟩ : ∃ o, j = 512 * i + o := ⟨j - 512 * i, by lia⟩
        have ho : o < 512 := by lia
        have hom : m ≤ o := by
          by_contra hlt
          exact hk' ⟨o, by lia, segPage_eq hi ho⟩
        rcases hend with hm | ⟨hm, hno⟩ | ha
        · lia
        · have := h.tables (512 * i + m) (by lia)
          rw [segPage_eq hi hm] at this
          exact absurd this hno
        · have := h.args i seg hi ha
          lia

/-! ## all segments -/

theorem getElem?_of_drop {seg : PhyMemSeg} {segs rest : List PhyMemSeg} {i : Nat}
    (h : segs.drop i = seg :: rest) : segs[i]? = some seg := by
  have : (segs.drop i)[0]? = segs[i]? := by rw [List.getElem?_drop, Nat.add_zero]
  rw [← this, h]
  rfl

theorem mapSegs_spec {d : Nat} {segs : List PhyMemSeg} (hs : ∀ seg ∈ segs, SegShape d seg) :
    ∀ (rest : List PhyMemSeg) {i M : Nat} {s : Hv} {am : V → ArchVmMem} {lab : Nat → Option (Label V)}
      {vm : VmMem}, segs.drop i = rest → Tables cfg s am lab → SmallLeaves cfg s am →
      vm.archMem = am v → ((am v).st2Table = 0 → RootClean cfg s) → Covered cfg s (am v) d segs M → 512 * i ≤ M →
      ∃ lab' M', EditOf cfg s (mapSegs cfg rest s vm).1 am v vm (mapSegs cfg rest s vm).2.1 lab lab' ∧
        Covered cfg (mapSegs cfg rest s vm).1 (mapSegs cfg rest s vm).2.1.archMem d segs M' ∧
        ((mapSegs cfg rest s vm).2.1.archMem.st2Table = 0 → RootClean cfg (mapSegs cfg rest s vm).1) := by
  intro rest
  induction rest with
  | nil =>
    intro i M s am lab vm hd ht hsm ha hc hcov hM
    rw [mapSegs, ha]
    exact ⟨lab, M, EditOf.refl ht hsm ha, hcov, hc⟩
  | cons seg rest ih =>
    intro i M s am lab vm hd ht hsm ha hc hcov hM
    have hi := getElem?_of_drop hd
    have hseg := hs seg (List.mem_of_getElem? hi)
    obtain ⟨lab', m, hu, hm, hret, hz⟩ := archMemMap_seg hseg ht ha hc
    have hcov' := hcov.map hseg hi hM hu hm hz
    rw [mapSegs]
    split
    · exact ⟨lab', _, hu.editOf hsm, hcov', hu.clean⟩
    · rename_i hok
      obtain rfl : m = 512 := hret.resolve_left hok
      have hself : ∀ x : VmMem, setAm am v x v = x.archMem := fun x => Function.update_self _ _ _
      obtain ⟨lab'', M', he, hcl⟩ := ih (i := i + 1)
        (by rw [← List.drop_drop, hd]; rfl) hu.tables (hu.small hsm) (hself _).symm
        (by rw [hself]; exact hu.clean) (by rw [hself]; exact hcov') (by lia)
      exact ⟨lab'', M', (hu.editOf hsm).trans he, hcl⟩

theorem unmapSegs_spec {d M : Nat} {segs : List PhyMemSeg} (hs : ∀ seg ∈ segs, SegShape d seg) :
    ∀ (rest : List PhyMemSeg) {i : Nat} {s : Hv} {am : V → ArchVmMem} {lab : Nat → Option (Label V)}
      {vm : VmMem}, segs.drop i = rest → Tables cfg s am lab → SmallLeaves cfg s am →
      vm.archMem = am v → ((am v).st2Table = 0 → RootClean cfg s) → Covered cfg s (am v) d segs M →
      Cleared cfg s (am v) segs M (512 * i) →
      ∃ lab', EditOf cfg s (unmapSegs cfg rest s vm).1 am v vm (unmapSegs cfg rest s vm).2 lab lab' ∧
        Covered cfg (unmapSegs cfg rest s vm).1 (unmapSegs cfg rest s vm).2.archMem d segs M ∧
        Cleared cfg (unmapSegs cfg rest s vm).1 (unmapSegs cfg rest s vm).2.archMem segs M
          (512 * (i + rest.length)) := by
  intro rest
  induction rest with
  | nil =>
    intro i s am lab vm hd ht hsm ha hc hcov hcl
    rw [unmapSegs, ha]
    exact ⟨lab, EditOf.refl ht hsm ha, hcov, hcl⟩
  | cons seg rest ih =>
    intro i s am lab vm hd ht hsm ha hc hcov hcl
    have hi := getElem?_of_drop hd
    have hseg := hs seg (List.mem_of_getElem? hi)
    obtain ⟨lab', m, hu, hend⟩ := archMemUnmap_seg hseg ht ha hc
    obtain ⟨hcov', hcl'⟩ := hcov.unmap hseg hi hu hend
    have hself : ∀ x : VmMem, setAm am v x v = x.archMem := fun x => Function.update_self _ _ _
    rw [unmapSegs]
    obtain ⟨lab'', he, hcov'', hcl''⟩ := ih (i := i + 1)
      (by rw [← List.drop_drop, hd]; rfl) hu.tables (hu.small hsm) (hself _).symm
      (by rw [hself]; exact hu.clean) (by rw [hself]; exact hcov') (by rw [hself]; exact hcl' hcl)
    refine ⟨lab'', (hu.editOf hsm).trans he, hcov'', ?_⟩
    rw [List.length_cons, show i + (rest.length + 1) = i + 1 + rest.length by omega]
    exact hcl''

theorem Covered.noRam {a : ArchVmMem} {d M n : Nat} {segs : List PhyMemSeg}
    (h : Covered cfg s a d segs M) (hc : Cleared cfg s a segs M n) (hn : M ≤ n) : NoRam cfg s a := by
  intro k hk p hp hr
  obtain ⟨⟨j, hj, rfl⟩, -⟩ := h.mapped k hk p hp hr
  rw [hc j hj (by omega)] at hp
  cases hp

/-- **`lkhv_unmap_ram`** leaves no RAM mapped. -/
theorem lkhvUnmapRam_spec {d M : Nat} {segs : List PhyMemSeg} (hs : ∀ seg ∈ segs, SegShape d seg)
    (hsegs : vm.segs = some segs) (h : Tables cfg s am lab) (hsm : SmallLeaves cfg s am)
    (ha : vm.archMem = am v) (hc : (am v).st2Table = 0 → RootClean cfg s) (hcov : Covered cfg s (am v) d segs M) :
    ∃ s' vm' lab', lkhvUnmapRam cfg s vm = some (s', vm') ∧ EditOf cfg s s' am v vm vm' lab lab' ∧
      NoRam cfg s' vm'.archMem := by
  obtain ⟨lab', he, hcov', hcl⟩ := unmapSegs_spec hs segs (i := 0) rfl h hsm ha hc hcov
    fun j _ hj => absurd hj (Nat.not_lt_zero j)
  refine ⟨_, _, lab', by rw [lkhvUnmapRam, hsegs]; rfl, he.unlock, ?_⟩
  obtain ⟨h1, h2, -, -, -, -, h6⟩ := memUnlock_hv cfg (unmapSegs cfg segs s vm).1 (unmapSegs cfg segs s vm).2
  have := hcov'.noRam hcl (by have := hcov.le; omega)
  rw [h6]
  exact this.congr (fun k _ => by rw [h2]) fun p => by rw [h1]

/-- **`lkhv_map_ram`** maps RAM of the segments only, and none if it fails. -/
theorem lkhvMapRam_spec {d M : Nat} {segs : List PhyMemSeg} (hs : ∀ seg ∈ segs, SegShape d seg)
    (hsegs : vm.segs = some segs) (h : Tables cfg s am lab) (hsm : SmallLeaves cfg s am)
    (ha : vm.archMem = am v) (hc : (am v).st2Table = 0 → RootClean cfg s) (hcov : Covered cfg s (am v) d segs M) :
    ∃ s' vm' ret lab' M', lkhvMapRam cfg s vm = some (s', vm', ret) ∧
      EditOf cfg s s' am v vm vm' lab lab' ∧ Covered cfg s' vm'.archMem d segs M' ∧
      (ret < 0 → NoRam cfg s' vm'.archMem) := by
  obtain ⟨lab', M', he, hcov', hcl⟩ := mapSegs_spec hs segs (i := 0) rfl h hsm ha hc hcov (Nat.zero_le _)
  obtain ⟨h1, h2, -, -, -, -, h6⟩ := memUnlock_hv cfg (mapSegs cfg segs s vm).1 (mapSegs cfg segs s vm).2.1
  have hcov'' : Covered cfg (memUnlock cfg (mapSegs cfg segs s vm).1 (mapSegs cfg segs s vm).2.1).1
      (memUnlock cfg (mapSegs cfg segs s vm).1 (mapSegs cfg segs s vm).2.1).2.archMem d segs M' := by
    rw [h6]
    exact hcov'.congr (fun k _ => by rw [h2]) (fun k _ ht => by rwa [HasTable, h2]) fun p => by rw [h1]
  have he' := he.unlock
  rw [lkhvMapRam, hsegs, Option.bind_some]
  by_cases hr : (mapSegs cfg segs s vm).2.2 < 0
  · have hself : ∀ x : VmMem, setAm am v x v = x.archMem := fun x => Function.update_self _ _ _
    obtain ⟨s', vm', lab'', e, heu, hno⟩ := lkhvUnmapRam_spec (v := v) hs
      (show VmMem.segs (memUnlock cfg (mapSegs cfg segs s vm).1 (mapSegs cfg segs s vm).2.1).2 = some segs
        by rw [VmMem.segs, he'.segs.segNum, he'.segs.memSeg]; exact hsegs) he'.tables he'.small
      (hself _).symm (by rw [hself, h6, RootClean, h1, h2]; exact hcl) (by rw [hself]; exact hcov'')
    refine ⟨s', vm', _, lab'', 0, by simp only [if_pos hr, e]; rfl, he'.trans heu, hno.covered _ _, fun _ => hno⟩
  · exact ⟨_, _, 0, lab', M', by simp only [if_neg hr], he', hcov'', fun hn => absurd hn (by decide)⟩

/-- the test serial is no RAM -/
theorem lkhvMapTestSerial_spec {d M : Nat} {segs : List PhyMemSeg} (h : Tables cfg s am lab)
    (hsm : SmallLeaves cfg s am) (ha : vm.archMem = am v) (hc : (am v).st2Table = 0 → RootClean cfg s)
    (hdev : ¬ s.pmm.Ram (SERIAL / PAGE_SIZE)) (hcov : Covered cfg s (am v) d segs M) :
    ∃ lab', EditOf cfg s (lkhvMapTestSerial cfg s vm).1 am v vm (lkhvMapTestSerial cfg s vm).2.1 lab lab' ∧
      Covered cfg (lkhvMapTestSerial cfg s vm).1 (lkhvMapTestSerial cfg s vm).2.1.archMem d segs M := by
  have hspan : 0x1000 ≤ PAGE_SIZE * cfg.span := by
    have := cfg.span_pos
    simp only [PAGE_SIZE]
    lia
  rw [lkhvMapTestSerial, show (0x1000 : Int) = ((0x1000 : Nat) : Int) from rfl,
    archMemMap_loop (by decide) (by decide) (by decide)]
  obtain ⟨lab', m, hu, hend⟩ := editLoop_spec ERR_NO_MEMORY (v := v)
    (mapPlan cfg (show PAGE_SIZE ∣ 0x1000 by decide) hspan (show SERIAL + 0x1000 ≤ 2 ^ 48 by decide))
    (Heads.true _ _) h ha hc (len_le_rounds 0x1000)
  have hm : m ≤ 1 := by
    rcases hend with ⟨-, hm, -⟩ | ⟨-, hm, -⟩ <;> simp only [PAGE_SIZE] at hm <;> lia
  refine ⟨lab', hu.editOf hsm, hcov.le, fun k hk p hp hr => ?_, fun j hj => ?_, hcov.args⟩
  · by_cases hk' : ∃ o < m, k = cfg.page SERIAL o
    · obtain ⟨o, ho, rfl⟩ := hk'
      obtain rfl : o = 0 := by lia
      have hd := hu.done 0 ho
      rw [archMemMapLoop] at hp hr
      rw [hd] at hp
      cases hp
      exact absurd ((hu.grow.ram _).mp hr) hdev
    · have := hu.frame v k hk fun _ o ho e => hk' ⟨o, ho, e⟩
      rw [setAm, Function.update_self] at this
      rw [archMemMapLoop, pageWalk, this] at hp
      exact hcov.mapped k hk p hp ((hu.grow.ram p).mp hr)
  · refine (fun x hx => ?_ : ∀ x < cfg.span, HasTable cfg s (am v) d x → _) _ (segPage_lt cfg segs j)
      (hcov.tables j hj)
    intro ht
    have := hu.keep d (fun e => ⟨Nat.zero_le _, fun n hn _ => ?_⟩) v d x hx (fun _ => le_rfl) ht
    · rw [setAm, Function.update_self] at this
      exact this
    · obtain rfl : n = 0 := by
        simp only [PAGE_SIZE] at hn
        lia
      decide

end

/-! ## taking and giving back the segments -/

theorem allocSegs_spec : ∀ (n : Nat) {pmm : Pmm} {ipa : Nat} {segs : List PhyMemSeg}, pmm.Wf →
    (allocSegs n pmm ipa).2 = some segs →
    pmm.Takes (allocSegs n pmm ipa).1 (segs.flatMap PhyMemSeg.pgs) ∧ segs.length = n ∧
      ∀ seg ∈ segs, SegShape (if VM_MEM_BLOCK_2M ∣ ipa then 1 else 0) seg := by
  intro n
  induction n with
  | zero =>
    intro pmm ipa segs h hs
    cases hs
    exact ⟨h.refl_takes pmm.refused, rfl, by simp⟩
  | succ n ih =>
    intro pmm ipa segs h hs
    rw [allocSegs] at hs ⊢
    rcases h.allocContiguous (1 <<< (VM_MEM_BLOCK_SHIFT - PAGE_SIZE_SHIFT)) VM_MEM_BLOCK_SHIFT (by decide) with
      ⟨pg, e, ht, -, hal⟩ | ⟨e, -, -⟩
    · simp only [e, Option.map_eq_some_iff] at hs ⊢
      obtain ⟨rest, hrest, rfl⟩ := hs
      obtain ⟨ht', hlen, hsh⟩ := ih ht.wf hrest
      have hpg : ∀ o < 512, 0 < pg + o ∧ pg + o < 2 ^ 36 := by
        intro o ho
        refine h.ram_lt (ht.free (pg + o) ?_).1
        rw [List.mem_range'_1]
        exact ⟨Nat.le_add_right _ _, Nat.add_lt_add_left ho pg⟩
      refine ⟨ht.trans ht', by rw [List.length_cons, hlen], fun seg hseg => ?_⟩
      rcases List.mem_cons.mp hseg with rfl | hseg
      · have h0 := hpg 0 (by decide)
        have h1 := hpg 511 (by decide)
        refine ⟨?_, ?_, ?_, ?_, ?_⟩
        · show List.range' pg 512 = _
          rw [Nat.mul_div_cancel_left _ (by decide)]
        · rw [Nat.mul_comm]
          exact hal
        · simp only [PAGE_SIZE]
          omega
        · simp only [PAGE_SIZE, VM_MEM_BLOCK_2M]
          omega
        · show (if VM_MEM_BLOCK_2M ∣ ipa then 1 else 0) ≤ 1 ∧ _
          split <;> simp_all
      · have := hsh seg hseg
        have e2 : VM_MEM_BLOCK_2M ∣ (ipa + VM_MEM_BLOCK_2M) % 2 ^ 64 ↔ VM_MEM_BLOCK_2M ∣ ipa := by
          simp only [VM_MEM_BLOCK_2M]
          omega
        simpa only [e2] using this
    · simp only [e] at hs
      cases hs

theorem freeSegs_spec : ∀ (segs : List PhyMemSeg) {pmm : Pmm}, pmm.Wf →
    (∀ seg ∈ segs, seg.pa ≠ 0) → (segs.flatMap PhyMemSeg.pgs).Nodup →
    (∀ p ∈ segs.flatMap PhyMemSeg.pgs, pmm.Ram p ∧ pmm.nonfree p = true) →
    pmm.Gives (freeSegs segs pmm) (segs.flatMap PhyMemSeg.pgs) := by
  intro segs
  induction segs with
  | nil =>
    intro pmm h _ _ _
    exact Pmm.Wf.free h List.nodup_nil (by simp)
  | cons seg segs ih =>
    intro pmm h hpa hnd hp
    rw [List.flatMap_cons] at hnd hp ⊢
    obtain ⟨h1, h2, h3⟩ := List.nodup_append.mp hnd
    have hg := h.free h1 fun p hm => hp p (List.mem_append_left _ hm)
    rw [freeSegs, if_pos (hpa seg (by simp))]
    refine hg.trans (ih hg.wf (fun x hx => hpa x (by simp [hx])) h2 fun p hm => ?_)
    obtain ⟨h4, h5⟩ := hp p (List.mem_append_right _ hm)
    refine ⟨(hg.ram p).mpr h4, ?_⟩
    rw [hg.nonfree, h5]
    have : p ∉ seg.pgs := fun hs => h3 p hs p hm rfl
    simpa using this

end LkHv
