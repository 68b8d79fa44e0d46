import LkHv.Lib.Machine
import LkHv.Stage2.Loop

/-!
# The machine of stage-2 edits

Any number of VMs, their tables edited by `arch_mem_map` and `arch_mem_unmap` with any arguments, and the
rest of the system at work in between: pages allocated, freed and written by others, VTTBRs loaded, the
`mem_lock` of a VM taken and released.

* `tableStep`, `tableSys`   the machine;
* `RootsClean`              the guard: when `init_st2_root` runs, the root pages it does not clear hold no
                            valid descriptor;
* `tableInv`                in runs under this guard the tables of all VMs are well formed.
-/

namespace LkHv
open Radix

/-! ## the functions of the source, for any arguments -/

section
variable {V : Type} [DecidableEq V] {cfg : Config}
variable {s : Hv} {am : V → ArchVmMem} {lab : Nat → Option (Label V)} {v : V} {vm : VmMem}

theorem len_le_rounds (len : Nat) : len ≤ PAGE_SIZE * (len / PAGE_SIZE + 1) := by
  rw [PAGE_SIZE]
  omega

/-- nothing happened -/
theorem same_tables (h : Tables cfg s am lab) (ha : vm.archMem = am v) (hsm : SmallLeaves cfg s am) :
    ∃ lab', Tables cfg s (setAm am v vm) lab' ∧ Grow s s lab lab' ∧ SmallLeaves cfg s (setAm am v vm) := by
  have e : setAm am v vm = am := by rw [setAm, ha, Function.update_eq_self]
  rw [e]
  exact ⟨lab, h, Grow.refl _ _, hsm⟩

theorem archMemMap_tables (h : Tables cfg s am lab) (ha : vm.archMem = am v)
    (hc : (am v).st2Table = 0 → RootClean cfg s) (hsm : SmallLeaves cfg s am) (pa ipa : Nat) (len : Int) :
    ∃ lab', Tables cfg (archMemMap cfg s vm pa ipa len).1 (setAm am v (archMemMap cfg s vm pa ipa len).2.1) lab' ∧
      Grow s (archMemMap cfg s vm pa ipa len).1 lab lab' ∧ SmallLeaves cfg (archMemMap cfg s vm pa ipa len).1
        (setAm am v (archMemMap cfg s vm pa ipa len).2.1) := by
  rw [archMemMap]
  split
  · exact same_tables h ha hsm
  split
  · exact same_tables h ha hsm
  · exact editLoop_tables (fun _ _ _ => mapRound_entryVal) h ha hc hsm (len_le_rounds _)

theorem archMemUnmap_tables (h : Tables cfg s am lab) (ha : vm.archMem = am v)
    (hc : (am v).st2Table = 0 → RootClean cfg s) (hsm : SmallLeaves cfg s am) (ipa : Nat) (len : Int) :
    ∃ lab', Tables cfg (archMemUnmap cfg s vm ipa len).1 (setAm am v (archMemUnmap cfg s vm ipa len).2.1) lab' ∧
      Grow s (archMemUnmap cfg s vm ipa len).1 lab lab' ∧ SmallLeaves cfg (archMemUnmap cfg s vm ipa len).1
        (setAm am v (archMemUnmap cfg s vm ipa len).2.1) := by
  rw [archMemUnmap]
  split
  · exact same_tables h ha hsm
  split
  · exact same_tables h ha hsm
  · exact editLoop_tables (fun _ _ _ => unmapRound_entryVal) h ha hc hsm (len_le_rounds _)

end

/-! ## the machine -/

structure TableSys where
  hv : Hv
  vm : Nat → VmMem
  /-- `mem_lock` -/
  locked : Nat → Bool
  /-- pages others have from the allocator -/
  host : List Nat

inductive TableOp where
  | map (v pa ipa : Nat) (len : Int)
  | unmap (v ipa : Nat) (len : Int)
  | lock (v : Nat)
  | unlock (v : Nat)
  /-- the editing CPU has the VTTBR of `v` loaded, the others those of `vs` -/
  | load (v : Nat) (vs : List Nat)
  | hostAlloc (count : Nat)
  | hostFree (pgs : List Nat)
  | hostWrite (addr val : Nat)

def tableStep (cfg : Config) (s : TableSys) : TableOp → Option TableSys
  | .map v pa ipa len =>
    let r := archMemMap cfg s.hv (s.vm v) pa ipa len
    some { s with hv := r.1, vm := Function.update s.vm v r.2.1 }
  | .unmap v ipa len =>
    let r := archMemUnmap cfg s.hv (s.vm v) ipa len
    some { s with hv := r.1, vm := Function.update s.vm v r.2.1 }
  | .lock v => if s.locked v then none else some { s with locked := Function.update s.locked v true }
  | .unlock v =>
    if s.locked v then
      let r := memUnlock cfg s.hv (s.vm v)
      some { s with hv := r.1, vm := Function.update s.vm v r.2
                    locked := Function.update s.locked v false }
    else none
  | .load v vs =>
    some { s with hv := Hv.fill cfg { s.hv with
                    vttbrEl2 := (s.vm v).archMem.vttbr
                    others := vs.map fun w => (s.vm w).archMem.vttbr } }
  | .hostAlloc count =>
    let r := pmmAllocPages s.hv.pmm count
    some { s with hv := { s.hv with pmm := r.1 }, host := r.2 ++ s.host }
  | .hostFree pgs =>
    if pgs.Nodup ∧ ∀ p ∈ pgs, p ∈ s.host then
      some { s with hv := { s.hv with pmm := pmmFree s.hv.pmm pgs }
                    host := s.host.filter fun p => ¬ p ∈ pgs }
    else none
  | .hostWrite addr val =>
    if addr / PAGE_SIZE ∈ s.host then some { s with hv := s.hv.write cfg addr val } else none

/-- a VM before anything is set up -/
def VmMem.boot : VmMem where
  archMem := { vttbr := 0, st2Table := 0, ln := [], st2RootKva := none, vmid := 0 }
  segNum := 0
  memSeg := none
  needFlush := false

/-- the state at boot: a page allocator whose pages the kernel has mapped, any memory contents -/
structure Hv.Boot (cfg : Config) (s : Hv) : Prop where
  pmm : s.pmm.Wf
  kmapped : ∀ p, s.pmm.Ram p → cfg.kmapped (PAGE_SIZE * p) = true
  baseVmid : s.baseVmid = 1
  vttbrEl2 : s.vttbrEl2 = 0
  others : s.others = []
  tlb : ∀ vmid k p, ¬ s.tlb vmid k p
  bbm : s.bbm

structure TableSys.Boot (cfg : Config) (s : TableSys) : Prop where
  hv : s.hv.Boot cfg
  vm : ∀ v, s.vm v = VmMem.boot
  locked : ∀ v, s.locked v = false
  host : s.host = []

def tableSys (cfg : Config) : Machine TableSys TableOp := .ofFun (TableSys.Boot cfg) (tableStep cfg)

/-- the guard -/
def RootsClean (cfg : Config) (s : TableSys) : TableOp → Prop
  | .map v _ _ _ => (s.vm v).archMem.st2Table = 0 → RootClean cfg s.hv
  | .unmap v _ _ => (s.vm v).archMem.st2Table = 0 → RootClean cfg s.hv
  | _ => True

/-! ## the invariant -/

abbrev TableSys.am (s : TableSys) : Nat → ArchVmMem := fun v => (s.vm v).archMem

structure TableInv (cfg : Config) (s : TableSys) (lab : Nat → Option (Label Nat)) : Prop where
  tables : Tables cfg s.hv s.am lab
  small : SmallLeaves cfg s.hv s.am
  host : ∀ p ∈ s.host, lab p = none ∧ s.hv.pmm.Ram p ∧ s.hv.pmm.nonfree p = true

theorem am_update (vm : Nat → VmMem) (v : Nat) (x : VmMem) :
    (fun w => (Function.update vm v x w).archMem) = setAm (fun w => (vm w).archMem) v x := by
  funext w
  by_cases e : w = v
  · rw [e, setAm, Function.update_self, Function.update_self]
  · rw [setAm, Function.update_of_ne e, Function.update_of_ne e]

/-- the invariant is about the allocator, memory and the loaded VTTBRs only -/
theorem Tables.congr {V : Type} {cfg : Config} {s s' : Hv} {am : V → ArchVmMem}
    {lab : Nat → Option (Label V)} (h : Tables cfg s am lab) (hp : s'.pmm = s.pmm) (hm : s'.mem = s.mem)
    (hl : ∀ w ∈ s'.vttbrEl2 :: s'.others, w = 0 ∨ ∃ v, (am v).st2Table ≠ 0 ∧ w = (am v).vttbr) :
    Tables cfg s' am lab where
  pmm := hp ▸ h.pmm
  kmapped := hp ▸ h.kmapped
  forest := hm ▸ h.forest
  used := hp ▸ h.used
  level0 := hm ▸ h.level0
  root := h.root
  loaded := hl

/-- a write to a page that is no table -/
theorem agreeOn_write {V : Type} {lab : Nat → Option (Label V)} {mem : PhysMem} {addr val : Nat}
    (hp : lab (addr / PAGE_SIZE) = none) :
    AgreeOn 512 lab (store mem) (store fun a => if a = addr then val else mem a) := by
  intro l f j hj hf
  rw [store, store, if_neg]
  rintro rfl
  rw [pteAddr_page hj] at hp
  exact hf hp

theorem Tables.write {V : Type} {cfg : Config} {s : Hv} {am : V → ArchVmMem}
    {lab : Nat → Option (Label V)} (h : Tables cfg s am lab) {addr : Nat} (val : Nat)
    (hp : lab (addr / PAGE_SIZE) = none) : Tables cfg (s.write cfg addr val) am lab :=
  { h with
    forest := h.forest.agree (agreeOn_write hp)
    level0 := by
      intro f v p hf i hi
      show isPteBlock (if pteAddr f i = addr then val else s.mem (pteAddr f i)) = false
      rw [if_neg]
      · exact h.level0 f v p hf i hi
      · rintro rfl
        rw [pteAddr_page hi, hf] at hp
        cases hp }

theorem Tables.quiet_write {V : Type} {cfg : Config} {s : Hv} {am : V → ArchVmMem}
    {lab : Nat → Option (Label V)} (h : Tables cfg s am lab) {addr : Nat} (val : Nat)
    (hp : lab (addr / PAGE_SIZE) = none) : Quiet cfg lab s (s.write cfg addr val) :=
  h.quiet_fill _ s.pmm
    (fun _ _ _ _ hf => walk_agree h.forest (by decide) (agreeOn_write hp) hf)
    (fun _ _ _ _ _ _ hf hs => by rwa [slot_agree h.forest (by decide) (agreeOn_write hp) hf])

theorem Tables.gives {V : Type} {cfg : Config} {s : Hv} {am : V → ArchVmMem}
    {lab : Nat → Option (Label V)} {pmm : Pmm} {pgs : List Nat} (h : Tables cfg s am lab)
    (hg : s.pmm.Gives pmm pgs) (hn : ∀ p ∈ pgs, lab p = none) : Tables cfg { s with pmm := pmm } am lab :=
  { h with
    pmm := hg.wf
    kmapped := fun p hp => h.kmapped p ((hg.ram p).mp hp)
    used := by
      intro f hf
      obtain ⟨h1, h2⟩ := h.used f hf
      refine ⟨(hg.ram f).mpr h1, ?_⟩
      show pmm.nonfree f = true
      have : f ∉ pgs := fun hm => hf (hn f hm)
      rw [hg.nonfree, h2]
      simpa using this }

section
variable {cfg : Config} {s : TableSys} {lab : Nat → Option (Label Nat)}

/-- `mem_unlock` touches the TLB only -/
theorem memUnlock_hv (cfg : Config) (s : Hv) (mem : VmMem) :
    (memUnlock cfg s mem).1.pmm = s.pmm ∧ (memUnlock cfg s mem).1.mem = s.mem ∧
      (memUnlock cfg s mem).1.baseVmid = s.baseVmid ∧
      (memUnlock cfg s mem).1.vttbrEl2 = s.vttbrEl2 ∧ (memUnlock cfg s mem).1.others = s.others ∧
      (memUnlock cfg s mem).1.bbm = s.bbm ∧ (memUnlock cfg s mem).2.archMem = mem.archMem := by
  rw [memUnlock]
  split
  · simp only [archTlbFlush]
    split <;> exact ⟨rfl, rfl, rfl, rfl, rfl, rfl, trivial⟩
  · exact ⟨rfl, rfl, rfl, rfl, rfl, rfl, rfl⟩

theorem TableInv.boot (h : s.Boot cfg) : TableInv cfg s fun _ => none := by
  have hr : ∀ v, Rootless (s.am v) := by
    intro v
    rw [TableSys.am, h.vm v]
    exact ⟨rfl, rfl, rfl⟩
  refine ⟨⟨h.hv.pmm, h.hv.kmapped, ?_, ?_, ?_, fun v => .inl (hr v), ?_⟩, ?_, ?_⟩
  · intro f t l p i g hf
    cases hf
  · exact fun f hf => absurd rfl hf
  · intro f v p hf
    cases hf
  · rw [h.hv.vttbrEl2, h.hv.others]
    simp
  · intro w x _ l p hl
    rw [(hr w).vttbr, leafWalk_zero] at hl
    cases hl
  · rw [h.host]
    simp

/-- an edit of the tables of one VM -/
theorem TableInv.edit (h : TableInv cfg s lab) {v : Nat} {hv' : Hv} {vm' : VmMem}
    {lab' : Nat → Option (Label Nat)} (ht : Tables cfg hv' (setAm s.am v vm') lab')
    (hg : Grow s.hv hv' lab lab') (hs : SmallLeaves cfg hv' (setAm s.am v vm')) :
    TableInv cfg { s with hv := hv', vm := Function.update s.vm v vm' } lab' := by
  have e : TableSys.am { s with hv := hv', vm := Function.update s.vm v vm' } = setAm s.am v vm' :=
    am_update s.vm v vm'
  refine ⟨by rwa [e], by rwa [e], fun p hp => ?_⟩
  obtain ⟨h1, h2, h3⟩ := h.host p hp
  refine ⟨?_, (hg.ram p).mpr h2, hg.nonfree p h3⟩
  by_contra hn
  rw [hg.fresh p h1 hn] at h3
  cases h3

/-- the steps of the rest of the system -/
def TableOp.rest : TableOp → Bool
  | .load _ _ => true
  | .hostAlloc _ => true
  | .hostFree _ => true
  | .hostWrite _ _ => true
  | _ => false

/-- what the rest of the system does to the VMs: nothing -/
structure RestStep (cfg : Config) (s s' : TableSys) (lab : Nat → Option (Label Nat)) : Prop where
  inv : TableInv cfg s' lab
  vm : s'.vm = s.vm
  quiet : ∀ w k, k < cfg.span → leafWalk cfg s'.hv.mem (s.am w).vttbr k = leafWalk cfg s.hv.mem (s.am w).vttbr k
  tables : ∀ w d k, k < cfg.span → HasTable cfg s.hv (s.am w) d k → HasTable cfg s'.hv (s.am w) d k
  ram : ∀ p, s'.hv.pmm.Ram p ↔ s.hv.pmm.Ram p
  nonfree : ∀ p, s.hv.pmm.nonfree p = true → p ∉ s.host → s'.hv.pmm.nonfree p = true ∧ p ∉ s'.host

theorem TableInv.rest (h : TableInv cfg s lab) {op : TableOp} {s' : TableSys}
    (hst : tableStep cfg s op = some s') (ho : op.rest = true) : RestStep cfg s s' lab := by
  cases op with
  | map v pa ipa len => cases ho
  | unmap v ipa len => cases ho
  | lock v => cases ho
  | unlock v => cases ho
  | load v vs =>
    cases hst
    refine ⟨⟨h.tables.congr rfl rfl ?_, h.small, h.host⟩, rfl, fun _ _ _ => rfl, fun _ _ _ _ ht => ht,
      fun _ => Iff.rfl, fun _ h1 h2 => ⟨h1, h2⟩⟩
    have hl : ∀ w, (s.vm w).archMem.vttbr = 0 ∨
        ∃ u, (s.am u).st2Table ≠ 0 ∧ (s.vm w).archMem.vttbr = (s.am u).vttbr := by
      intro w
      rcases h.tables.root w with hn | ⟨r, hr⟩
      · exact .inl hn.vttbr
      · exact .inr ⟨w, h.tables.st2Table_ne hr, rfl⟩
    intro x hx
    rcases List.mem_cons.mp hx with rfl | hx
    · exact hl v
    · obtain ⟨w, -, rfl⟩ := List.mem_map.mp hx
      exact hl w
  | hostAlloc count =>
    cases hst
    have ht := h.tables.pmm.allocPages count
    refine ⟨⟨h.tables.withPmm ht, h.small, fun p hp => ?_⟩, rfl, fun _ _ _ => rfl, fun _ _ _ _ ht => ht,
      ht.ram, fun p h1 h2 => ⟨?_, fun hp => ?_⟩⟩
    · rcases List.mem_append.mp hp with hp | hp
      · obtain ⟨h1, h2⟩ := ht.free p hp
        refine ⟨h.tables.lab_fresh h2, (ht.ram p).mpr h1, ?_⟩
        show (pmmAllocPages s.hv.pmm count).1.nonfree p = true
        rw [ht.nonfree, setNonfree]
        simp [hp]
      · obtain ⟨h1, h2, h3⟩ := h.host p hp
        refine ⟨h1, (ht.ram p).mpr h2, ?_⟩
        show (pmmAllocPages s.hv.pmm count).1.nonfree p = true
        rw [ht.nonfree, setNonfree, h3, Bool.true_or]
    · show (pmmAllocPages s.hv.pmm count).1.nonfree p = true
      rw [ht.nonfree, setNonfree, h1, Bool.true_or]
    · rcases List.mem_append.mp hp with hp | hp
      · rw [(ht.free p hp).2] at h1
        cases h1
      · exact h2 hp
  | hostFree pgs =>
    simp only [tableStep] at hst
    split at hst
    · rename_i hp
      cases hst
      have hgv := h.tables.pmm.free hp.1 fun p hm => (h.host p (hp.2 p hm)).2
      refine ⟨⟨h.tables.gives hgv fun p hm => (h.host p (hp.2 p hm)).1, h.small, fun p hm => ?_⟩, rfl,
        fun _ _ _ => rfl, fun _ _ _ _ ht => ht, hgv.ram, fun p h1 h2 => ⟨?_, fun hm => ?_⟩⟩
      · rw [List.mem_filter, decide_eq_true_eq] at hm
        obtain ⟨h1, h2, h3⟩ := h.host p hm.1
        refine ⟨h1, (hgv.ram p).mpr h2, ?_⟩
        show (pmmFree s.hv.pmm pgs).nonfree p = true
        rw [hgv.nonfree, h3]
        simpa using hm.2
      · show (pmmFree s.hv.pmm pgs).nonfree p = true
        rw [hgv.nonfree, h1]
        have : p ∉ pgs := fun hm => h2 (hp.2 p hm)
        simpa using this
      · exact h2 (List.mem_of_mem_filter hm)
    · cases hst
  | hostWrite addr val =>
    simp only [tableStep] at hst
    split at hst
    · rename_i hp
      cases hst
      have hn := (h.host _ hp).1
      have hq := h.tables.quiet_write val hn
      have hw : ∀ w k, k < cfg.span → _ := fun w k hk => h.tables.leafWalk_congr hq.walk w hk
      exact ⟨⟨h.tables.write val hn, SameWalks.small hw h.small, h.host⟩, rfl, hw,
        fun w d k hk ht => h.tables.hasTable_mono hq hk ht, fun _ => Iff.rfl, fun _ h1 h2 => ⟨h1, h2⟩⟩
    · cases hst

/-- **The tables stay well formed.** -/
theorem TableInv.step (h : TableInv cfg s lab) {op : TableOp} {s' : TableSys}
    (hg : RootsClean cfg s op) (hst : tableStep cfg s op = some s') : ∃ lab', TableInv cfg s' lab' := by
  cases op with
  | map v pa ipa len =>
    cases hst
    obtain ⟨lab', h1, h2, h3⟩ := archMemMap_tables h.tables rfl hg h.small pa ipa len
    exact ⟨lab', h.edit h1 h2 h3⟩
  | unmap v ipa len =>
    cases hst
    obtain ⟨lab', h1, h2, h3⟩ := archMemUnmap_tables h.tables rfl hg h.small ipa len
    exact ⟨lab', h.edit h1 h2 h3⟩
  | lock v =>
    simp only [tableStep] at hst
    split at hst
    · cases hst
    · cases hst
      exact ⟨lab, h.tables, h.small, h.host⟩
  | unlock v =>
    simp only [tableStep] at hst
    split at hst
    · cases hst
      obtain ⟨h1, h2, -, h4, h5, -, h6⟩ := memUnlock_hv cfg s.hv (s.vm v)
      have e : (fun w => (Function.update s.vm v (memUnlock cfg s.hv (s.vm v)).2 w).archMem) = s.am := by
        rw [am_update, setAm, h6, Function.update_eq_self]
      have ht : Tables cfg (memUnlock cfg s.hv (s.vm v)).1 s.am lab := by
        refine h.tables.congr h1 h2 ?_
        rw [h4, h5]
        exact h.tables.loaded
      have hs : SmallLeaves cfg (memUnlock cfg s.hv (s.vm v)).1 s.am := by
        intro w x hx l p hl
        rw [h2] at hl
        exact h.small w x hx l p hl
      rw [← e] at ht hs
      refine ⟨lab, ht, hs, ?_⟩
      rw [h1]
      exact h.host
    · cases hst
  | load v vs => exact ⟨lab, (h.rest hst rfl).inv⟩
  | hostAlloc count => exact ⟨lab, (h.rest hst rfl).inv⟩
  | hostFree pgs => exact ⟨lab, (h.rest hst rfl).inv⟩
  | hostWrite addr val => exact ⟨lab, (h.rest hst rfl).inv⟩

theorem tableInv (hr : (tableSys cfg).Run (RootsClean cfg) s) : ∃ lab, TableInv cfg s lab :=
  hr.invariant (I := fun s => ∃ lab, TableInv cfg s lab) (fun _ h0 => ⟨_, TableInv.boot h0⟩) fun _ _ _ ⟨_, h⟩ hg hst => h.step hg hst

end

/-! ## the other VMs -/

section
variable {V : Type} [DecidableEq V] {cfg : Config} {s : Hv} {am : V → ArchVmMem} {lab : Nat → Option (Label V)} {v w : V}
  {vm : VmMem} {block : Nat → Bool} {blockVal pageVal : Nat → Nat} {ipa len n k : Nat}

/-- the loop leaves the translations of the other VMs, for any arguments and however it ends -/
theorem editLoop_others {err : Int} (hv : ∀ off d val, Round block blockVal pageVal off d val → EntryVal d val)
    (h : Tables cfg s am lab) (ha : vm.archMem = am v) (hc : (am v).st2Table = 0 → RootClean cfg s)
    (hn : len ≤ PAGE_SIZE * n) (hw : w ≠ v) (hk : k < cfg.span) :
    leafWalk cfg (editLoop cfg err block blockVal pageVal ipa len n s vm 0).1.mem (am w).vttbr k =
      leafWalk cfg s.mem (am w).vttbr k := by
  have e : setAm am v vm = am := by rw [setAm, ha, Function.update_eq_self]
  have hother : ∀ vm', setAm am v vm' w = am w := fun _ => Function.update_of_ne hw _ _
  refine editLoop_rule
    (Φ := fun _ s' vm' => (∃ lab', Tables cfg s' (setAm am v vm') lab') ∧
      (vm'.archMem.st2Table = 0 → RootClean cfg s') ∧
        leafWalk cfg s'.mem (am w).vttbr k = leafWalk cfg s.mem (am w).vttbr k)
    (Ψ := fun s' _ _ => leafWalk cfg s'.mem (am w).vttbr k = leafWalk cfg s.mem (am w).vttbr k)
    (fun _ _ _ h _ => h.2.2) ?_ ⟨⟨lab, by rwa [e]⟩, by rwa [ha], rfl⟩ (by lia)
  rintro off s' vm' d val ⟨⟨lab', h1⟩, h2, h3⟩ - hr
  have hd : d ≤ 1 := by
    rw [Round] at hr
    split at hr <;> lia
  have hself : setAm am v vm' v = vm'.archMem := Function.update_self _ _ _
  obtain ⟨lab'', ht, -, -, hout⟩ := setEntry_spec (v := v) vm' h1 hself.symm (by rwa [hself]) (ipa + off) hd
    (hv off d val hr)
  rw [setAm_setAm] at ht hout
  rcases hout with ⟨hyes, ho⟩ | ⟨hno, hf⟩
  · have hkeep := ho.edited w k hk
    have hroot := ho.root
    rw [if_neg fun hx => hw hx.1, hother, hother, h3] at hkeep
    rw [setAm, Function.update_self] at hroot
    exact ⟨fun _ => ⟨⟨lab'', ht⟩, fun hz => absurd hz hroot, hkeep⟩, fun _ => hkeep⟩
  · have hkeep := hf.same w k hk
    rw [hother, hother, h3] at hkeep
    refine ⟨fun hyes => ?_, fun _ => hkeep⟩
    rw [hno] at hyes
    cases hyes

end

section
variable {cfg : Config} {s s' t : TableSys} {lab : Nat → Option (Label Nat)} {w : Nat}

/-- a call that edits the tables of `w` -/
def TableOp.Edits (w : Nat) : TableOp → Prop
  | .map v _ _ _ => v = w
  | .unmap v _ _ => v = w
  | _ => False

/-- the tables of `w` translate as before -/
def SameFor (cfg : Config) (w : Nat) (s s' : TableSys) : Prop :=
  ∀ k < cfg.span, leafWalk cfg s'.hv.mem (s'.am w).vttbr k = leafWalk cfg s.hv.mem (s.am w).vttbr k

/-- a step that leaves `w` and what its tables are in memory -/
theorem sameFor_of (ha : s'.am w = s.am w)
    (hk : ∀ k < cfg.span, leafWalk cfg s'.hv.mem (s.am w).vttbr k = leafWalk cfg s.hv.mem (s.am w).vttbr k) :
    SameFor cfg w s s' := by
  intro k h
  rw [ha]
  exact hk k h

theorem RestStep.same (h : RestStep cfg s s' lab) : SameFor cfg w s s' :=
  sameFor_of (congrArg (fun vm : Nat → VmMem => (vm w).archMem) h.vm) (h.quiet w)

theorem TableInv.same (h : TableInv cfg s lab) {op : TableOp} (hg : RootsClean cfg s op) (hno : ¬ op.Edits w)
    (hst : tableStep cfg s op = some s') : SameFor cfg w s s' := by
  cases op with
  | map v pa ipa len =>
    cases hst
    have hw : w ≠ v := fun e => hno e.symm
    refine sameFor_of (congrArg VmMem.archMem (Function.update_of_ne hw _ _)) fun k hk => ?_
    dsimp only
    rw [archMemMap]
    split
    · rfl
    split
    · rfl
    · exact editLoop_others (fun _ _ _ => mapRound_entryVal) h.tables rfl hg (len_le_rounds _) hw hk
  | unmap v ipa len =>
    cases hst
    have hw : w ≠ v := fun e => hno e.symm
    refine sameFor_of (congrArg VmMem.archMem (Function.update_of_ne hw _ _)) fun k hk => ?_
    dsimp only
    rw [archMemUnmap]
    split
    · rfl
    split
    · rfl
    · exact editLoop_others (fun _ _ _ => unmapRound_entryVal) h.tables rfl hg (len_le_rounds _) hw hk
  | lock v =>
    simp only [tableStep] at hst
    split at hst <;> cases hst
    exact fun _ _ => rfl
  | unlock v =>
    simp only [tableStep] at hst
    split at hst
    · cases hst
      obtain ⟨-, h2, -, -, -, -, h6⟩ := memUnlock_hv cfg s.hv (s.vm v)
      have e := congrFun (am_update s.vm v (memUnlock cfg s.hv (s.vm v)).2) w
      rw [setAm, h6, Function.update_eq_self] at e
      exact sameFor_of e fun k _ => by rw [h2]
    · cases hst
  | load v vs => exact (h.rest hst rfl).same
  | hostAlloc count => exact (h.rest hst rfl).same
  | hostFree pgs => exact (h.rest hst rfl).same
  | hostWrite addr val => exact (h.rest hst rfl).same

end

/-! ## a small board -/

/-- one arena of 16 pages -/
def smallPmm : Pmm :=
  pmmAddArena Pmm.empty { base := 0x40000000, size := 0x10000, priority := 0, kmap := true, freeList := [] }

theorem smallPmm_wf : smallPmm.Wf := Pmm.empty_wf.addArena ⟨by decide, by decide, by decide⟩ (by simp [Pmm.empty])

/-- a CPU with the given `ipa_info` row and all memory mapped in the kernel -/
def smallConfig (info : IpaInfo) (h : info ∈ ipaInfo) : Config where
  info := info
  vmidBits := 8
  kmapped _ := true
  listed := h
  vmid := .inl rfl

def smallHv (mem : PhysMem) : Hv where
  pmm := smallPmm
  mem := mem
  baseVmid := 1
  vttbrEl2 := 0
  others := []
  tlb _ _ _ := False
  bbm := True

def smallSys (mem : PhysMem) : TableSys where
  hv := smallHv mem
  vm _ := VmMem.boot
  locked _ := false
  host := []

theorem smallSys_boot (info : IpaInfo) (h : info ∈ ipaInfo) (mem : PhysMem) :
    (smallSys mem).Boot (smallConfig info h) :=
  ⟨⟨smallPmm_wf, fun _ _ => rfl, rfl, rfl, rfl, fun _ _ _ h => h, trivial⟩, fun _ => rfl, fun _ => rfl, rfl⟩

end LkHv
