import LkHv.Mem.Segments

/-!
# The life of VMs and their pages

`lkhv_vm_init`, `lkhv_vm_deinit` and `lkhv_shutdown_vm` as far as memory goes, for any number of VMs in any
order, with the rest of the system taking, writing and giving back pages in between.

* `VmStage`, `vmStep`, `vmSys`   the machine: each function of `hv_mem.c` is a step of its own;
* `VmGuard`         the guard: a shutdown finds no RAM mapped, the segments are not refused, the loader stays
                    in the VM's pages, new roots are clean and the test serial is no RAM;
* `Isolated`        RAM that a VM's tables map is the VM's own;
* `vm_isolated`     in runs under the guard every state is isolated;
* `vm_isolated_fails`   not so when a VM with RAM is shut down.
-/

namespace LkHv
open Radix

/-! ## the machine -/

/-- where a VM is in `lkhv_vm_init` or `lkhv_vm_deinit` -/
inductive VmStage where
  | idle
  /-- after `lkhv_alloc_mem` -/
  | alloced
  /-- after `lkhv_map_ram` -/
  | mapped
  /-- after `lkhv_map_test_serial` -/
  | serial
  /-- after `lkhv_vm_load` -/
  | loaded
  | running
  /-- at `load_failed`, or in `lkhv_vm_deinit` -/
  | unmap
  /-- at `map_failed`, or after `lkhv_unmap_ram` -/
  | free
  deriving DecidableEq

structure VmSys where
  sys : TableSys
  stage : Nat → VmStage
  /-- undefined behaviour has happened -/
  ub : Bool
  /-- monitor: `lkhv_vm_free_mem` never met a page that its VM still mapped -/
  freed : Prop

inductive VmOp where
  /-- `lkhv_alloc_mem`, where `malloc` may fail -/
  | alloc (v : Nat) (malloc : Bool)
  | mapRam (v : Nat)
  | mapSerial (v : Nat)
  /-- `lkhv_vm_load`: its stores, and whether it succeeds -/
  | load (v : Nat) (stores : List (Nat × Nat)) (ok : Bool)
  /-- `hv_vm_mmio_init` and `hv_vm_irq_init` -/
  | irqInit (v : Nat) (ok : Bool)
  | unmapRam (v : Nat)
  | freeMem (v : Nat)
  /-- `lkhv_vm_deinit`, when `vcpu_start_common` failed -/
  | deinit (v : Nat)
  /-- `lkhv_shutdown_vm`, once the vCPUs are off -/
  | shutdown (v : Nat)
  /-- a store of the guest through its tables -/
  | guest (v ipa val : Nat)
  /-- VTTBRs loaded, and pages of others -/
  | sys (op : TableOp)

/-- a leaf of the tables of `v` maps the page `p` -/
def TableSys.Maps (cfg : Config) (s : TableSys) (v p : Nat) : Prop :=
  ∃ k < cfg.span, pageWalk cfg s.hv.mem (s.am v).vttbr k = some p

def VmSys.setVm (s : VmSys) (v : Nat) (hv : Hv) (mem : VmMem) (st : VmStage) : VmSys :=
  { s with sys := { s.sys with hv := hv, vm := Function.update s.sys.vm v mem }
           stage := Function.update s.stage v st }

/-- `lkhv_vm_free_mem` by a VM -/
def VmSys.freeMem (cfg : Config) (s : VmSys) (v : Nat) : VmSys :=
  match lkhvVmFreeMem s.sys.hv.pmm (s.sys.vm v) with
  | none => { s with ub := true }
  | some r =>
    { s.setVm v { s.sys.hv with pmm := r.1 } r.2 .idle with
      freed := s.freed ∧ ∀ p ∈ (s.sys.vm v).pages, ¬ s.sys.Maps cfg v p }

def vmStep (cfg : Config) (info : Nat → VmInfo) (s : VmSys) (op : VmOp) : Option VmSys :=
  if s.ub then none else
  match op with
  | .alloc v malloc =>
    if s.stage v = .idle then
      match lkhvAllocMem (info v) s.sys.hv.pmm (s.sys.vm v) malloc with
      | none => some { s with ub := true }
      | some r =>
        some (s.setVm v { s.sys.hv with pmm := r.1 } r.2.1 (if r.2.2 < 0 then .idle else .alloced))
    else none
  | .mapRam v =>
    if s.stage v = .alloced ∨ s.stage v = .running then
      match lkhvMapRam cfg s.sys.hv (s.sys.vm v) with
      | none => some { s with ub := true }
      | some r =>
        some (s.setVm v r.1 r.2.1
          (if s.stage v = .running then .running else if r.2.2 < 0 then .free else .mapped))
    else none
  | .mapSerial v =>
    if s.stage v = .mapped then
      let r := lkhvMapTestSerial cfg s.sys.hv (s.sys.vm v)
      some (s.setVm v r.1 r.2.1 .serial)
    else none
  | .load v stores ok =>
    if s.stage v = .serial then
      some (s.setVm v (stores.foldl (fun hv st => hv.write cfg st.1 st.2) s.sys.hv) (s.sys.vm v)
        (if ok then .loaded else .unmap))
    else none
  | .irqInit v ok =>
    if s.stage v = .loaded then
      some { s with stage := Function.update s.stage v (if ok then .running else .unmap) }
    else none
  | .unmapRam v =>
    if s.stage v = .unmap ∨ s.stage v = .running then
      match lkhvUnmapRam cfg s.sys.hv (s.sys.vm v) with
      | none => some { s with ub := true }
      | some r => some (s.setVm v r.1 r.2 (if s.stage v = .running then .running else .free))
    else none
  | .freeMem v => if s.stage v = .free then some (s.freeMem cfg v) else none
  | .deinit v =>
    if s.stage v = .running then some { s with stage := Function.update s.stage v .unmap } else none
  | .shutdown v => if s.stage v = .running then some (s.freeMem cfg v) else none
  | .guest v ipa val =>
    match stage2Walk cfg s.sys.hv.mem (s.sys.vm v).archMem.vttbr ipa with
    | none => none
    | some pa => some { s with sys := { s.sys with hv := s.sys.hv.write cfg (pa / 8 * 8) val } }
  | .sys op => if op.rest then (tableStep cfg s.sys op).map fun t => { s with sys := t } else none

structure VmSys.Boot (cfg : Config) (s : VmSys) : Prop where
  sys : s.sys.Boot cfg
  stage : ∀ v, s.stage v = .idle
  ub : s.ub = false
  freed : s.freed

def vmSys (cfg : Config) (info : Nat → VmInfo) : Machine VmSys VmOp := .ofFun (VmSys.Boot cfg) (vmStep cfg info)

/-- the guard, on the state before a step -/
def VmGuard (cfg : Config) (info : Nat → VmInfo) (s : VmSys) : VmOp → Prop
  | .alloc v malloc => malloc = true → 0 ≤ memSegCounts (info v) →
    segsServed (memSegCounts (info v)).toNat s.sys.hv.pmm = true
  | .mapRam v => (s.sys.am v).st2Table = 0 → RootClean cfg s.sys.hv
  | .unmapRam v => (s.sys.am v).st2Table = 0 → RootClean cfg s.sys.hv
  | .mapSerial v =>
    ((s.sys.am v).st2Table = 0 → RootClean cfg s.sys.hv) ∧ ¬ s.sys.hv.pmm.Ram (SERIAL / PAGE_SIZE)
  | .load v stores _ => ∀ st ∈ stores, st.1 / PAGE_SIZE ∈ (s.sys.vm v).pages
  | .shutdown v => ∀ p, s.sys.Maps cfg v p → ¬ s.sys.hv.pmm.Ram p
  | _ => True

/-- **Stage-2 isolation**: RAM that the tables of a VM map is on the VM's own lists, on no other VM's, and
not free. -/
def Isolated (cfg : Config) (s : TableSys) : Prop :=
  ∀ v p, s.Maps cfg v p → s.hv.pmm.Ram p → p ∈ (s.vm v).pages ∧ ¬ s.hv.pmm.Free p ∧ ∀ w, w ≠ v → p ∉ (s.vm w).pages

/-! ## the invariant -/

/-- a VM and its tables, stage by stage -/
structure VmOk (cfg : Config) (s : Hv) (mem : VmMem) (st : VmStage) : Prop where
  idle : st = .idle → mem.memSeg = none
  segs : st ≠ .idle → ∃ segs d M, mem.memSeg = some segs ∧ segs.length = mem.segNum ∧
    (∀ seg ∈ segs, SegShape d seg) ∧ Covered cfg s mem.archMem d segs M
  noRam : st = .idle ∨ st = .alloced ∨ st = .free → NoRam cfg s mem.archMem

structure VmInv (cfg : Config) (s : VmSys) (lab : Nat → Option (Label Nat)) : Prop where
  table : TableInv cfg s.sys lab
  vm : ∀ v, VmOk cfg s.sys.hv (s.sys.vm v) (s.stage v)
  pages : ∀ v, ∀ p ∈ (s.sys.vm v).pages,
    s.sys.hv.pmm.Ram p ∧ s.sys.hv.pmm.nonfree p = true ∧ lab p = none ∧ p ∉ s.sys.host
  nodup : ∀ v, (s.sys.vm v).pages.Nodup
  apart : ∀ v w, v ≠ w → ∀ p ∈ (s.sys.vm v).pages, p ∉ (s.sys.vm w).pages
  ub : s.ub = false
  freed : s.freed

section
variable {cfg : Config} {info : Nat → VmInfo} {s : VmSys} {lab : Nat → Option (Label Nat)}

theorem VmOk.memSegs {s : Hv} {mem : VmMem} {st : VmStage} (h : VmOk cfg s mem st) (hst : st ≠ .idle) :
    ∃ segs d M, mem.memSeg = some segs ∧ segs.length = mem.segNum ∧ mem.segs = some segs ∧
      mem.pages = segs.flatMap PhyMemSeg.pgs ∧ (∀ seg ∈ segs, SegShape d seg) ∧
      Covered cfg s mem.archMem d segs M := by
  obtain ⟨segs, d, M, h1, h2, h3, h4⟩ := h.segs hst
  refine ⟨segs, d, M, h1, h2, ?_, by rw [VmMem.pages, h1]; rfl, h3, h4⟩
  rw [VmMem.segs, h1]
  split
  · rename_i h0
    rw [h0] at h2
    rw [List.length_eq_zero_iff.mp h2]
  · rfl

/-- the isolation of one state -/
theorem VmInv.isolated (h : VmInv cfg s lab) : Isolated cfg s.sys := by
  rintro v p ⟨k, hk, hp⟩ hr
  have hv := h.vm v
  have hst : s.stage v ≠ .idle := fun e => hv.noRam (.inl e) k hk p hp hr
  obtain ⟨segs, d, M, -, -, -, hpg, -, hcov⟩ := hv.memSegs hst
  have hm : p ∈ (s.sys.vm v).pages := by
    rw [hpg]
    exact (hcov.mapped k hk p hp hr).2
  refine ⟨hm, fun hf => ?_, fun w hw => h.apart v w hw.symm p hm⟩
  have := ((h.table.tables.pmm.free_iff p).mp hf).2
  rw [(h.pages v p hm).2.1] at this
  cases this

theorem VmInv.boot (h : s.Boot cfg) : VmInv cfg s fun _ => none := by
  have hpg : ∀ v, (s.sys.vm v).pages = [] := fun v => by rw [h.sys.vm v]; rfl
  have ht := TableInv.boot h.sys
  refine ⟨ht, fun v => ⟨fun _ => by rw [h.sys.vm v]; rfl, fun hn => absurd (h.stage v) hn,
    fun _ k hk p hp => ?_⟩, ?_, ?_, ?_, h.ub, h.freed⟩
  · rw [h.sys.vm v, pageWalk] at hp
    rw [show VmMem.boot.archMem.vttbr = 0 from rfl, leafWalk_zero] at hp
    cases hp
  · intro v p hp
    rw [hpg] at hp
    cases hp
  · intro v
    rw [hpg]
    exact List.nodup_nil
  · intro v w _ p hp
    rw [hpg] at hp
    cases hp

/-- the other VMs of a step of `v` -/
theorem VmOk.other {hv hv' : Hv} {mem : VmMem} {st : VmStage} (h : VmOk cfg hv mem st)
    (hw : ∀ k < cfg.span, leafWalk cfg hv'.mem mem.archMem.vttbr k = leafWalk cfg hv.mem mem.archMem.vttbr k)
    (ht : ∀ d k, k < cfg.span → HasTable cfg hv mem.archMem d k → HasTable cfg hv' mem.archMem d k)
    (hr : ∀ p, hv'.pmm.Ram p ↔ hv.pmm.Ram p) : VmOk cfg hv' mem st where
  idle := h.idle
  segs hs := by
    obtain ⟨segs, d, M, h1, h2, h3, h4⟩ := h.segs hs
    exact ⟨segs, d, M, h1, h2, h3, h4.congr hw (ht d) hr⟩
  noRam hs := (h.noRam hs).congr hw hr

/-- **An edit of the tables of one VM.** -/
theorem VmInv.edit (h : VmInv cfg s lab) {v : Nat} {hv' : Hv} {vm' : VmMem} {st : VmStage}
    {lab' : Nat → Option (Label Nat)} (he : EditOf cfg s.sys.hv hv' s.sys.am v (s.sys.vm v) vm' lab lab')
    (hok : VmOk cfg hv' vm' st) : VmInv cfg (s.setVm v hv' vm' st) lab' := by
  have hvm : ∀ w, w ≠ v → (s.setVm v hv' vm' st).sys.vm w = s.sys.vm w := fun w hw => Function.update_of_ne hw _ _
  have hself : (s.setVm v hv' vm' st).sys.vm v = vm' := Function.update_self _ _ _
  have hpg : ∀ w, ((s.setVm v hv' vm' st).sys.vm w).pages = (s.sys.vm w).pages := by
    intro w
    by_cases ew : w = v
    · rw [ew, hself, VmMem.pages, VmMem.pages, he.segs.memSeg]
    · rw [hvm w ew]
  refine ⟨h.table.edit he.tables he.grow he.small, fun w => ?_, fun w p hp => ?_, fun w => ?_,
    fun w u hwu p hp => ?_, h.ub, h.freed⟩
  · by_cases ew : w = v
    · rw [ew, hself]
      simpa only [VmSys.setVm, Function.update_self] using hok
    · rw [hvm w ew]
      have hst : (s.setVm v hv' vm' st).stage w = s.stage w := Function.update_of_ne ew _ _
      rw [hst]
      exact (h.vm w).other (he.walks w ew) (he.keep w ew) he.grow.ram
  · rw [hpg] at hp
    obtain ⟨h1, h2, h3, h4⟩ := h.pages w p hp
    refine ⟨(he.grow.ram p).mpr h1, he.grow.nonfree p h2, ?_, h4⟩
    by_contra hn
    rw [he.grow.fresh p h3 hn] at h2
    cases h2
  · rw [hpg]
    exact h.nodup w
  · rw [hpg] at hp ⊢
    exact h.apart w u hwu p hp

/-- taking pages for `v`, or none -/
theorem VmInv.alloc (h : VmInv cfg s lab) {v : Nat} {pmm : Pmm} {mem' : VmMem} {st : VmStage}
    (ht : s.sys.hv.pmm.Takes pmm mem'.pages) (ha : mem'.archMem = (s.sys.vm v).archMem)
    (hok : VmOk cfg s.sys.hv mem' st) : VmInv cfg (s.setVm v { s.sys.hv with pmm := pmm } mem' st) lab := by
  have hvm : ∀ w, w ≠ v → (s.setVm v { s.sys.hv with pmm := pmm } mem' st).sys.vm w = s.sys.vm w :=
    fun w hw => Function.update_of_ne hw _ _
  have hself : (s.setVm v { s.sys.hv with pmm := pmm } mem' st).sys.vm v = mem' := Function.update_self _ _ _
  have ham : (s.setVm v { s.sys.hv with pmm := pmm } mem' st).sys.am = s.sys.am := by
    funext w
    by_cases ew : w = v
    · rw [ew, TableSys.am, hself, ha]
    · rw [TableSys.am, hvm w ew]
  have hok' : ∀ {mem st}, VmOk cfg s.sys.hv mem st → VmOk cfg { s.sys.hv with pmm := pmm } mem st :=
    fun hv => hv.other (fun _ _ => rfl) (fun _ _ _ h => h) ht.ram
  have hkeep : ∀ p, s.sys.hv.pmm.nonfree p = true → pmm.nonfree p = true := by
    intro p hp
    rw [ht.nonfree, setNonfree, hp, Bool.true_or]
  have hold : ∀ p, s.sys.hv.pmm.nonfree p = true → p ∉ mem'.pages := by
    intro p hp hm
    rw [(ht.free p hm).2] at hp
    cases hp
  have htab := h.table.tables.withPmm ht
  rw [← ham] at htab
  have hsm := h.table.small
  rw [← ham] at hsm
  refine ⟨⟨htab, hsm, fun p hp => ?_⟩, fun w => ?_, fun w p hp => ?_, fun w => ?_, fun w u hwu p hp => ?_,
    h.ub, h.freed⟩
  · obtain ⟨h1, h2, h3⟩ := h.table.host p hp
    exact ⟨h1, (ht.ram p).mpr h2, hkeep p h3⟩
  · by_cases ew : w = v
    · rw [ew, hself]
      simpa only [VmSys.setVm, Function.update_self] using hok' hok
    · rw [hvm w ew]
      have hst : (s.setVm v { s.sys.hv with pmm := pmm } mem' st).stage w = s.stage w := Function.update_of_ne ew _ _
      rw [hst]
      exact hok' (h.vm w)
  · by_cases ew : w = v
    · rw [ew, hself] at hp
      obtain ⟨h1, h2⟩ := ht.free p hp
      refine ⟨(ht.ram p).mpr h1, ?_, h.table.tables.lab_fresh h2, fun hh => ?_⟩
      · show pmm.nonfree p = true
        rw [ht.nonfree, setNonfree]
        simp [hp]
      · rw [(h.table.host p hh).2.2] at h2
        cases h2
    · rw [hvm w ew] at hp
      obtain ⟨h1, h2, h3, h4⟩ := h.pages w p hp
      exact ⟨(ht.ram p).mpr h1, hkeep p h2, h3, h4⟩
  · by_cases ew : w = v
    · rw [ew, hself]
      exact ht.nodup
    · rw [hvm w ew]
      exact h.nodup w
  · by_cases ew : w = v
    · rw [ew, hself] at hp
      rw [hvm u fun eu => hwu (ew.trans eu.symm)]
      exact fun hu => hold p (h.pages u p hu).2.1 hp
    · rw [hvm w ew] at hp
      by_cases eu : u = v
      · rw [eu, hself]
        exact hold p (h.pages w p hp).2.1
      · rw [hvm u eu]
        exact h.apart w u hwu p hp

/-- **`lkhv_vm_free_mem`** when the VM maps no RAM. -/
theorem VmInv.freeMem (h : VmInv cfg s lab) {v : Nat} (hst : s.stage v ≠ .idle)
    (hno : NoRam cfg s.sys.hv (s.sys.am v)) : VmInv cfg (s.freeMem cfg v) lab := by
  obtain ⟨segs, d, M, -, -, hsegs, hpg, hsh, -⟩ := (h.vm v).memSegs hst
  have hp : ∀ p ∈ segs.flatMap PhyMemSeg.pgs, s.sys.hv.pmm.Ram p ∧ s.sys.hv.pmm.nonfree p = true := by
    intro p hp
    rw [← hpg] at hp
    obtain ⟨h1, h2, -⟩ := h.pages v p hp
    exact ⟨h1, h2⟩
  have hnd := h.nodup v
  rw [hpg] at hnd
  have hg := freeSegs_spec segs h.table.tables.pmm (fun seg hs => (hsh seg hs).pos) hnd hp
  have hfree : lkhvVmFreeMem s.sys.hv.pmm (s.sys.vm v)
      = some (freeSegs segs s.sys.hv.pmm, { s.sys.vm v with memSeg := none }) := by
    rw [lkhvVmFreeMem, hsegs]
    rfl
  rw [← hpg] at hg
  rw [VmSys.freeMem, hfree]
  -- the pages of the other VMs and of the host are not given back
  have hkeep : ∀ p, s.sys.hv.pmm.nonfree p = true → p ∉ (s.sys.vm v).pages →
      (freeSegs segs s.sys.hv.pmm).nonfree p = true := by
    intro p h1 h2
    rw [hg.nonfree, h1]
    simpa using h2
  have hok' : ∀ {mem st}, VmOk cfg s.sys.hv mem st →
      VmOk cfg { s.sys.hv with pmm := freeSegs segs s.sys.hv.pmm } mem st :=
    fun hv => hv.other (fun _ _ => rfl) (fun _ _ _ h => h) hg.ram
  have hvm : ∀ w, w ≠ v → Function.update s.sys.vm v { s.sys.vm v with memSeg := none } w = s.sys.vm w :=
    fun w hw => Function.update_of_ne hw _ _
  have hself : Function.update s.sys.vm v { s.sys.vm v with memSeg := none } v
      = { s.sys.vm v with memSeg := none } := Function.update_self _ _ _
  have hnil : (Function.update s.sys.vm v { s.sys.vm v with memSeg := none } v).pages = [] := by
    rw [hself]
    rfl
  have ham : (fun w => (Function.update s.sys.vm v { s.sys.vm v with memSeg := none } w).archMem)
      = s.sys.am := by
    rw [am_update, setAm, Function.update_eq_self]
  have htab := h.table.tables.gives hg fun p hm => (h.pages v p hm).2.2.1
  rw [← ham] at htab
  have hsm := h.table.small
  rw [← ham] at hsm
  refine ⟨⟨htab, hsm, fun p hh => ?_⟩, fun w => ?_, fun w p hp => ?_, fun w => ?_, fun w u hwu p hp => ?_,
    h.ub, h.freed, fun p hm hmap => ?_⟩
  · obtain ⟨h1, h2, h3⟩ := h.table.host p hh
    exact ⟨h1, (hg.ram p).mpr h2, hkeep p h3 fun hm => (h.pages v p hm).2.2.2 hh⟩
  · by_cases ew : w = v
    · subst ew
      simp only [VmSys.setVm, Function.update_self]
      exact ⟨fun _ => rfl, fun hn => absurd rfl hn, fun _ => hno.congr (fun _ _ => rfl) hg.ram⟩
    · simp only [VmSys.setVm, Function.update_of_ne ew]
      exact hok' (h.vm w)
  · by_cases ew : w = v
    · rw [ew] at hp
      simp only [VmSys.setVm, hnil] at hp
      cases hp
    · simp only [VmSys.setVm, hvm w ew] at hp
      obtain ⟨h1, h2, h3, h4⟩ := h.pages w p hp
      exact ⟨(hg.ram p).mpr h1, hkeep p h2 (h.apart w v ew p hp), h3, h4⟩
  · by_cases ew : w = v
    · rw [ew]
      simp only [VmSys.setVm, hnil]
      exact List.nodup_nil
    · simp only [VmSys.setVm, hvm w ew]
      exact h.nodup w
  · by_cases ew : w = v
    · rw [ew] at hp
      simp only [VmSys.setVm, hnil] at hp
      cases hp
    · simp only [VmSys.setVm, hvm w ew] at hp ⊢
      by_cases eu : u = v
      · rw [eu, hnil]
        exact List.not_mem_nil
      · rw [hvm u eu]
        exact h.apart w u hwu p hp
  · obtain ⟨k, hk, hp'⟩ := hmap
    exact hno k hk p hp' (h.pages v p hm).1

/-- only the stage of `v` changes -/
theorem VmInv.setStage (h : VmInv cfg s lab) {v : Nat} {st : VmStage} (hok : VmOk cfg s.sys.hv (s.sys.vm v) st) :
    VmInv cfg { s with stage := Function.update s.stage v st } lab := by
  refine ⟨h.table, fun w => ?_, h.pages, h.nodup, h.apart, h.ub, h.freed⟩
  by_cases ew : w = v
  · rw [ew]
    simpa only [Function.update_self] using hok
  · simp only [Function.update_of_ne ew]
    exact h.vm w

/-- a store to a page that is no table -/
theorem VmInv.write (h : VmInv cfg s lab) {addr : Nat} (val : Nat) (hp : lab (addr / PAGE_SIZE) = none) :
    VmInv cfg { s with sys := { s.sys with hv := s.sys.hv.write cfg addr val } } lab := by
  have hq := h.table.tables.quiet_write val hp
  have hw : ∀ w k, k < cfg.span → _ := fun w k hk => h.table.tables.leafWalk_congr hq.walk w hk
  exact ⟨⟨h.table.tables.write val hp, SameWalks.small hw h.table.small, h.table.host⟩,
    fun w => (h.vm w).other (hw w) (fun d k hk => h.table.tables.hasTable_mono hq hk) fun _ => Iff.rfl,
    h.pages, h.nodup, h.apart, h.ub, h.freed⟩

/-- the stores of the loader -/
theorem VmInv.writes (stores : List (Nat × Nat)) : ∀ {s : VmSys}, VmInv cfg s lab →
    (∀ st ∈ stores, lab (st.1 / PAGE_SIZE) = none) → VmInv cfg { s with sys := { s.sys with
      hv := stores.foldl (fun hv st => hv.write cfg st.1 st.2) s.sys.hv } } lab := by
  induction stores with
  | nil =>
    intro s h _
    exact h
  | cons st stores ih =>
    intro s h hp
    exact ih (h.write st.2 (hp st (by simp))) fun x hx => hp x (by simp [hx])

/-- VTTBRs loaded, and pages of others -/
theorem VmInv.rest (h : VmInv cfg s lab) {op : TableOp} {t : TableSys} (hst : tableStep cfg s.sys op = some t)
    (ho : op.rest = true) : VmInv cfg { s with sys := t } lab := by
  obtain ⟨hinv, hvm, hw, hk, hr, hn⟩ := h.table.rest hst ho
  refine ⟨hinv, fun w => ?_, fun w p hp => ?_, fun w => ?_, fun w u hwu p hp => ?_, h.ub, h.freed⟩
  · simp only [hvm]
    exact (h.vm w).other (hw w) (hk w) hr
  · simp only [hvm] at hp
    obtain ⟨h1, h2, h3, h4⟩ := h.pages w p hp
    obtain ⟨h5, h6⟩ := hn p h2 h4
    exact ⟨(hr p).mpr h1, h5, h3, h6⟩
  · simp only [hvm]
    exact h.nodup w
  · simp only [hvm] at hp ⊢
    exact h.apart w u hwu p hp

/-- where the stages other than `idle`, `alloced` and `free` may go -/
theorem VmOk.stage {hv : Hv} {mem : VmMem} {st : VmStage} (st' : VmStage) (h : VmOk cfg hv mem st)
    (hst : st ≠ .idle) (hst' : st' ≠ .idle ∧ st' ≠ .alloced ∧ st' ≠ .free) : VmOk cfg hv mem st' :=
  ⟨fun e => absurd e hst'.1, fun _ => h.segs hst, fun e => by
    rcases e with e | e | e
    · exact absurd e hst'.1
    · exact absurd e hst'.2.1
    · exact absurd e hst'.2.2⟩

/-! ## the steps -/

theorem VmInv.stepAlloc (h : VmInv cfg s lab) {v : Nat} {malloc : Bool} (hst : s.stage v = .idle)
    (hg : VmGuard cfg info s (.alloc v malloc)) :
    ∃ r, lkhvAllocMem (info v) s.sys.hv.pmm (s.sys.vm v) malloc = some r ∧
      VmInv cfg (s.setVm v { s.sys.hv with pmm := r.1 } r.2.1 (if r.2.2 < 0 then .idle else .alloced))
        lab := by
  have hv := h.vm v
  rw [hst] at hv
  have hnil : (s.sys.vm v).pages = [] := by
    rw [VmMem.pages, hv.idle rfl]
    rfl
  have hno := hv.noRam (.inl rfl)
  have ht0 : s.sys.hv.pmm.Takes s.sys.hv.pmm [] := h.table.tables.pmm.refl_takes s.sys.hv.pmm.refused
  rw [lkhvAllocMem]
  split
  · refine ⟨_, rfl, h.alloc (by rwa [hnil]) rfl ?_⟩
    exact ⟨fun _ => hv.idle rfl, fun hn => absurd rfl hn, fun _ => hno⟩
  rename_i hneg
  cases malloc with
  | false =>
    refine ⟨_, rfl, h.alloc ht0 rfl ?_⟩
    exact ⟨fun _ => rfl, fun hn => absurd rfl hn, fun _ => hno⟩
  | true =>
    obtain ⟨segs, hr⟩ := allocSegs_served (info v).ipaStart (hg rfl (by omega))
    obtain ⟨ht, hlen, hsh⟩ := allocSegs_spec _ h.table.tables.pmm hr
    refine ⟨((allocSegs (memSegCounts (info v)).toNat s.sys.hv.pmm (info v).ipaStart).1,
      { s.sys.vm v with segNum := (memSegCounts (info v)).toNat, memSeg := some segs }, 0),
      by simp only [if_true, hr], h.alloc ht rfl ?_⟩
    exact ⟨fun hn => (by cases hn), fun _ => ⟨segs, _, 0, rfl, hlen, hsh, hno.covered _ _⟩, fun _ => hno⟩

theorem VmInv.stepMapRam (h : VmInv cfg s lab) {v : Nat} (hst : s.stage v = .alloced ∨ s.stage v = .running)
    (hg : VmGuard cfg info s (.mapRam v)) : ∃ r lab', lkhvMapRam cfg s.sys.hv (s.sys.vm v) = some r ∧
      VmInv cfg (s.setVm v r.1 r.2.1
        (if s.stage v = .running then .running else if r.2.2 < 0 then .free else .mapped)) lab' := by
  have hne : s.stage v ≠ .idle := by rcases hst with e | e <;> rw [e] <;> simp
  obtain ⟨segs, d, M, h1, h2, hsegs, -, hsh, hcov⟩ := (h.vm v).memSegs hne
  obtain ⟨s', vm', ret, lab', M', e, he, hcov', hno⟩ := lkhvMapRam_spec hsh hsegs h.table.tables
    h.table.small rfl hg hcov
  refine ⟨_, lab', e, h.edit he ?_⟩
  have hstage : (if s.stage v = .running then .running else if ret < 0 then .free else .mapped : VmStage)
      ≠ .idle := by
    split
    · simp
    · split <;> simp
  refine ⟨fun hx => absurd hx hstage, fun _ => ⟨segs, d, M', he.segs.memSeg.trans h1,
    h2.trans he.segs.segNum.symm, hsh, hcov'⟩, fun hx => hno ?_⟩
  split at hx
  · simp at hx
  · split at hx
    · assumption
    · simp at hx

theorem VmInv.stepUnmapRam (h : VmInv cfg s lab) {v : Nat}
    (hst : s.stage v = .unmap ∨ s.stage v = .running) (hg : VmGuard cfg info s (.unmapRam v)) :
    ∃ r lab', lkhvUnmapRam cfg s.sys.hv (s.sys.vm v) = some r ∧
      VmInv cfg (s.setVm v r.1 r.2 (if s.stage v = .running then .running else .free)) lab' := by
  have hne : s.stage v ≠ .idle := by rcases hst with e | e <;> rw [e] <;> simp
  obtain ⟨segs, d, M, h1, h2, hsegs, -, hsh, hcov⟩ := (h.vm v).memSegs hne
  obtain ⟨s', vm', lab', e, he, hno⟩ := lkhvUnmapRam_spec hsh hsegs h.table.tables h.table.small rfl hg
    hcov
  refine ⟨_, lab', e, h.edit he ⟨fun hx => ?_, fun _ => ⟨segs, d, 0, he.segs.memSeg.trans h1,
    h2.trans he.segs.segNum.symm, hsh, hno.covered _ _⟩, fun _ => hno⟩⟩
  split at hx <;> cases hx

theorem VmInv.stepMapSerial (h : VmInv cfg s lab) {v : Nat} (hst : s.stage v = .mapped)
    (hg : VmGuard cfg info s (.mapSerial v)) :
    ∃ lab', VmInv cfg (s.setVm v (lkhvMapTestSerial cfg s.sys.hv (s.sys.vm v)).1
      (lkhvMapTestSerial cfg s.sys.hv (s.sys.vm v)).2.1 .serial) lab' := by
  obtain ⟨segs, d, M, h1, h2, -, -, hsh, hcov⟩ := (h.vm v).memSegs (by rw [hst]; simp)
  obtain ⟨lab', he, hcov'⟩ := lkhvMapTestSerial_spec h.table.tables h.table.small rfl hg.1 hg.2 hcov
  exact ⟨lab', h.edit he ⟨fun hx => (by cases hx), fun _ => ⟨segs, d, M, he.segs.memSeg.trans h1,
    h2.trans he.segs.segNum.symm, hsh, hcov'⟩, fun hx => by simp at hx⟩⟩

/-- a store of the guest hits no table -/
theorem VmInv.guest (h : VmInv cfg s lab) {v ipa pa : Nat}
    (hw : stage2Walk cfg s.sys.hv.mem (s.sys.vm v).archMem.vttbr ipa = some pa) : lab (pa / PAGE_SIZE) = none := by
  by_contra hn
  obtain ⟨hspan, hp⟩ := stage2Walk_page hw
  have := (h.isolated v _ ⟨_, hspan, hp⟩ (h.table.tables.used _ hn).1).1
  exact hn (h.pages v _ this).2.2.1

/-- **The invariant is kept.** -/
theorem VmInv.step (h : VmInv cfg s lab) {op : VmOp} {s' : VmSys} (hg : VmGuard cfg info s op)
    (hst : vmStep cfg info s op = some s') : ∃ lab', VmInv cfg s' lab' := by
  unfold vmStep at hst
  rw [if_neg (by rw [h.ub]; simp)] at hst
  cases op with
  | alloc v malloc =>
    simp only at hst
    split at hst
    · rename_i hi
      obtain ⟨r, e, hr⟩ := h.stepAlloc hi hg
      rw [e] at hst
      cases hst
      exact ⟨lab, hr⟩
    · cases hst
  | mapRam v =>
    simp only at hst
    split at hst
    · rename_i hi
      obtain ⟨r, lab', e, hr⟩ := h.stepMapRam hi hg
      rw [e] at hst
      cases hst
      exact ⟨lab', hr⟩
    · cases hst
  | mapSerial v =>
    simp only at hst
    split at hst
    · rename_i hi
      cases hst
      exact h.stepMapSerial hi hg
    · cases hst
  | load v stores ok =>
    simp only at hst
    split at hst
    · rename_i hi
      cases hst
      have h1 := h.writes stores fun st hm => (h.pages v _ (hg st hm)).2.2.1
      have h2 := h1.setStage (v := v) ((h1.vm v).stage (if ok then .loaded else .unmap)
        (by rw [hi]; simp) (by cases ok <;> simp))
      refine ⟨lab, ?_⟩
      simpa only [VmSys.setVm, Function.update_eq_self] using h2
    · cases hst
  | irqInit v ok =>
    simp only at hst
    split at hst
    · rename_i hi
      cases hst
      exact ⟨lab, h.setStage ((h.vm v).stage _ (by rw [hi]; simp) (by cases ok <;> simp))⟩
    · cases hst
  | unmapRam v =>
    simp only at hst
    split at hst
    · rename_i hi
      obtain ⟨r, lab', e, hr⟩ := h.stepUnmapRam hi hg
      rw [e] at hst
      cases hst
      exact ⟨lab', hr⟩
    · cases hst
  | freeMem v =>
    simp only at hst
    split at hst
    · rename_i hi
      cases hst
      exact ⟨lab, h.freeMem (by rw [hi]; simp) ((h.vm v).noRam (.inr (.inr hi)))⟩
    · cases hst
  | deinit v =>
    simp only at hst
    split at hst
    · rename_i hi
      cases hst
      exact ⟨lab, h.setStage ((h.vm v).stage _ (by rw [hi]; simp) (by simp))⟩
    · cases hst
  | shutdown v =>
    simp only at hst
    split at hst
    · rename_i hi
      cases hst
      exact ⟨lab, h.freeMem (by rw [hi]; simp) fun k hk p hp => hg p ⟨k, hk, hp⟩⟩
    · cases hst
  | guest v ipa val =>
    simp only at hst
    split at hst
    · cases hst
    · rename_i pa hw
      cases hst
      refine ⟨lab, h.write val ?_⟩
      have := h.guest hw
      rwa [show pa / 8 * 8 / PAGE_SIZE = pa / PAGE_SIZE by rw [PAGE_SIZE]; lia]
  | sys op =>
    simp only at hst
    split at hst
    · rename_i ho
      obtain ⟨t, ht, rfl⟩ := Option.map_eq_some_iff.mp hst
      exact ⟨lab, h.rest ht ho⟩
    · cases hst

/-- **Isolation.**  In runs under the guard every state is isolated, `lkhv_vm_free_mem` never gave back a page
that its VM still mapped, and nothing undefined happened. -/
theorem vm_isolated (hr : (vmSys cfg info).Run (VmGuard cfg info) s) :
    Isolated cfg s.sys ∧ s.freed ∧ s.ub = false := by
  obtain ⟨lab, h⟩ := hr.invariant (I := fun s => ∃ lab, VmInv cfg s lab) (fun _ h0 => ⟨_, VmInv.boot h0⟩)
    fun _ _ _ ⟨_, h⟩ hg hst => h.step hg hst
  exact ⟨h.isolated, h.freed, h.ub⟩

theorem vmInv_run (hr : (vmSys cfg info).Run (VmGuard cfg info) s) : ∃ lab, VmInv cfg s lab :=
  hr.invariant (I := fun s => ∃ lab, VmInv cfg s lab) (fun _ h0 => ⟨_, VmInv.boot h0⟩)
    fun _ _ _ ⟨_, h⟩ hg hst => h.step hg hst

/-- what the stores of `v` may not touch: RAM of the other VMs, free pages and pages of the host -/
def VmSys.Foreign (cfg : Config) (s : VmSys) (v p : Nat) : Prop :=
  (s.sys.hv.pmm.Ram p ∧ ∃ w, w ≠ v ∧ s.sys.Maps cfg w p) ∨ s.sys.hv.pmm.Free p ∨ p ∈ s.sys.host

theorem VmInv.not_foreign (h : VmInv cfg s lab) {v p : Nat} (hm : s.sys.Maps cfg v p) : ¬ s.Foreign cfg v p := by
  rintro (⟨hr, w, hw, hmw⟩ | hf | hh)
  · exact (h.isolated v p hm hr).2.2 w hw (h.isolated w p hmw hr).1
  · exact (h.isolated v p hm ((h.table.tables.pmm.free_iff p).mp hf).1).2.1 hf
  · exact (h.pages v p (h.isolated v p hm (h.table.host p hh).2.1).1).2.2.2 hh

/-- `t` is `s` but for stores of `v` -/
structure Stored (cfg : Config) (v : Nat) (s t : VmSys) : Prop where
  pmm : t.sys.hv.pmm = s.sys.hv.pmm
  host : t.sys.host = s.sys.host
  vm : t.sys.vm = s.sys.vm
  walk : ∀ w k, k < cfg.span → leafWalk cfg t.sys.hv.mem (s.sys.am w).vttbr k = leafWalk cfg s.sys.hv.mem (s.sys.am w).vttbr k
  mem : ∀ a, s.Foreign cfg v (a / PAGE_SIZE) → t.sys.hv.mem a = s.sys.hv.mem a

theorem Stored.foreign {v p : Nat} {t : VmSys} (h : Stored cfg v s t) (hf : s.Foreign cfg v p) : t.Foreign cfg v p := by
  rcases hf with ⟨hr, w, hw, k, hk, hm⟩ | hf | hh
  · refine .inl ⟨h.pmm ▸ hr, w, hw, k, hk, ?_⟩
    rw [pageWalk, TableSys.am, h.vm, h.walk w k hk]
    exact hm
  · exact .inr (.inl (h.pmm ▸ hf))
  · exact .inr (.inr (h.host ▸ hh))

theorem Stored.step {v ipa val : Nat} {t t' : VmSys} (hs : Stored cfg v s t) (h : VmInv cfg t lab)
    (hst : vmStep cfg info t (.guest v ipa val) = some t') : Stored cfg v s t' ∧ VmInv cfg t' lab := by
  unfold vmStep at hst
  rw [if_neg (by rw [h.ub]; simp)] at hst
  dsimp only at hst
  split at hst
  · cases hst
  · rename_i pa hw
    cases hst
    have hpage : pa / 8 * 8 / PAGE_SIZE = pa / PAGE_SIZE := by
      rw [PAGE_SIZE]
      lia
    have hlab : lab (pa / 8 * 8 / PAGE_SIZE) = none := hpage ▸ h.guest hw
    refine ⟨⟨hs.pmm, hs.host, hs.vm, fun w k hk => ?_, fun a ha => ?_⟩, h.write val hlab⟩
    · rw [← hs.walk w k hk, ← show t.sys.am = s.sys.am from funext fun w => by rw [TableSys.am, hs.vm]]
      exact h.table.tables.leafWalk_congr (h.table.tables.quiet_write val hlab).walk w hk
    · rw [← hs.mem a ha]
      refine if_neg ?_
      rintro rfl
      exact h.not_foreign ⟨_, stage2Walk_page hw⟩ (hpage ▸ hs.foreign ha)

/-- **A VM's stores**, any number of them: no translation changes, and no memory that is another VM's, the host's or
free. -/
theorem guest_confined {v : Nat} {t : VmSys} (hr : (vmSys cfg info).Run (VmGuard cfg info) s)
    (hp : (vmSys cfg info).Path (fun _ op => ∃ ipa val, op = .guest v ipa val) s t) :
    (∀ w x, stage2Walk cfg t.sys.hv.mem (t.sys.am w).vttbr x = stage2Walk cfg s.sys.hv.mem (s.sys.am w).vttbr x) ∧
      ∀ a, s.Foreign cfg v (a / PAGE_SIZE) → t.sys.hv.mem a = s.sys.hv.mem a := by
  obtain ⟨lab, h⟩ := vmInv_run hr
  obtain ⟨hs, -⟩ : Stored cfg v s t ∧ VmInv cfg t lab := by
    refine hp.invariant (I := fun t => Stored cfg v s t ∧ VmInv cfg t lab) ?_
      ⟨⟨rfl, rfl, rfl, fun _ _ _ => rfl, fun _ _ => rfl⟩, h⟩
    rintro t op t' ⟨hs, h⟩ ⟨ipa, val, rfl⟩ hst
    exact hs.step h hst
  refine ⟨fun w => stage2Walk_congr ?_, hs.mem⟩
  rw [TableSys.am, hs.vm]
  exact hs.walk w

end

/-! ## runs on a board with one segment of RAM -/

def segArena : PmmArena := { base := 0x50000000, size := 0x200000, priority := 1, kmap := true, freeList := [] }

/-- the small board with an arena of one segment more -/
def segSys : VmSys where
  sys := { smallSys (fun _ => 0) with
    hv := { smallHv (fun _ => 0) with pmm := pmmAddArena smallPmm segArena } }
  stage _ := .idle
  ub := false
  freed := True

/-- a VM with one segment of RAM -/
def segInfo : VmInfo := ⟨0x200000, 0x40000000⟩

theorem segPmm_wf : (pmmAddArena smallPmm segArena).Wf := by
  refine smallPmm_wf.addArena ⟨by decide, by decide, by decide⟩ fun b hb p hp => ?_
  rw [smallPmm, pmmAddArena, Pmm.empty, arenaInsert, List.mem_singleton] at hb
  subst hb
  simp only [PmmArena.Has, PmmArena.basePfn, PmmArena.pages, segArena, PAGE_SIZE] at hp ⊢
  omega

theorem segSys_boot (info : IpaInfo) (h : info ∈ ipaInfo) : segSys.Boot (smallConfig info h) where
  sys := ⟨⟨segPmm_wf, fun _ _ => rfl, rfl, rfl, rfl, fun _ _ _ h => h, trivial⟩, fun _ => rfl, fun _ => rfl, rfl⟩
  stage _ := rfl
  ub := rfl
  freed := trivial

/-- the theorem after the RAM was mapped -/
theorem vm_isolated_mapped : ∃ s,
    Machine.exec (vmStep (smallConfig ⟨20, 2, 0, 0⟩ (by decide)) fun _ => segInfo) segSys
        [.alloc 0 true, .mapRam 0] = some s ∧
      Isolated (smallConfig ⟨20, 2, 0, 0⟩ (by decide)) s.sys ∧ s.freed ∧ s.ub = false := by
  obtain ⟨s, hs⟩ := Option.isSome_iff_exists.mp
    (show (Machine.exec (vmStep (smallConfig ⟨20, 2, 0, 0⟩ (by decide)) fun _ => segInfo) segSys
      [.alloc 0 true, .mapRam 0]).isSome by decide +kernel)
  obtain ⟨s₁, h₁, hs₁⟩ := Option.bind_eq_some_iff.mp hs
  obtain ⟨s₂, h₂, hs₂⟩ := Option.bind_eq_some_iff.mp hs₁
  cases hs₂
  refine ⟨s, hs, vm_isolated (.step (a := .mapRam 0) (.step (a := .alloc 0 true)
    (.init (segSys_boot _ (by decide))) ?_ h₁) ?_ h₂)⟩
  · intro _ _
    decide +kernel
  · intro _ pg _ j h0 h1
    exact absurd h1 (by simp [Config.rootOrder, smallConfig]; omega)

/-- a store of a VM to its RAM -/
theorem guest_confined_mapped : ∃ s t,
    vmStep (smallConfig ⟨20, 2, 0, 0⟩ (by decide)) (fun _ => segInfo) s (.guest 0 0x40000000 1) = some t ∧
      ∀ a, s.Foreign (smallConfig ⟨20, 2, 0, 0⟩ (by decide)) 0 (a / PAGE_SIZE) → t.sys.hv.mem a = s.sys.hv.mem a := by
  obtain ⟨s, hs, hm⟩ := (Option.any_eq_true _ _).mp
    (show (Machine.exec (vmStep (smallConfig ⟨20, 2, 0, 0⟩ (by decide)) fun _ => segInfo) segSys
      [.alloc 0 true, .mapRam 0]).any (fun s => (vmStep (smallConfig ⟨20, 2, 0, 0⟩ (by decide)) (fun _ => segInfo) s
        (.guest 0 0x40000000 1)).isSome) by decide +kernel)
  obtain ⟨s₁, h₁, hs₁⟩ := Option.bind_eq_some_iff.mp hs
  obtain ⟨s₂, h₂, hs₂⟩ := Option.bind_eq_some_iff.mp hs₁
  cases hs₂
  obtain ⟨t, ht⟩ := Option.isSome_iff_exists.mp hm
  refine ⟨s, t, ht, (guest_confined (.step (a := .mapRam 0) (.step (a := .alloc 0 true)
    (.init (segSys_boot _ (by decide))) ?_ h₁) ?_ h₂) (.step (.refl _) ⟨_, _, rfl⟩ ht)).2⟩
  · exact fun _ _ => by decide +kernel
  · exact fun _ pg _ j h0 h1 => absurd h1 (by simp [Config.rootOrder, smallConfig]; omega)

/-- `lkhv_vm_init`, then `lkhv_shutdown_vm` -/
def initShutdown : List VmOp :=
  [.alloc 0 true, .mapRam 0, .mapSerial 0, .load 0 [] true, .irqInit 0 true, .shutdown 0]

/-- **A VM shut down.**  `lkhv_shutdown_vm` gives the RAM back without `lkhv_unmap_ram`. -/
theorem vm_isolated_fails : ¬ ∀ (cfg : Config) (info : Nat → VmInfo) (s : VmSys),
    (vmSys cfg info).Reach s → Isolated cfg s.sys := by
  intro h
  have hr : (vmSys (smallConfig ⟨20, 2, 0, 0⟩ (by decide)) fun _ => segInfo).Reach segSys :=
    .init (segSys_boot _ (by decide))
  obtain ⟨s, hs, hm⟩ := (Option.any_eq_true _ _).mp
    (show (Machine.exec (vmStep (smallConfig ⟨20, 2, 0, 0⟩ (by decide)) fun _ => segInfo) segSys
      initShutdown).any (fun s => pageWalk (smallConfig ⟨20, 2, 0, 0⟩ (by decide)) s.sys.hv.mem
        (s.sys.am 0).vttbr 0x40000 = some 0x50000 ∧ (s.sys.vm 0).pages = [] ∧
        ∃ a ∈ s.sys.hv.pmm.arenaList, a.Has 0x50000) by decide +kernel)
  obtain ⟨hp, hpg, hram⟩ := of_decide_eq_true hm
  have := (h _ _ _ (hr.exec initShutdown hs) 0 0x50000 ⟨0x40000, by decide, hp⟩ hram).1
  rw [hpg] at this
  cases this

end LkHv
