import LkHv.Mem.Isolation

/-!
# The RAM of a VM is mapped whole or not at all

`lkhv_map_ram` on the segments that `lkhv_alloc_mem` built, in any state of the tables of all VMs, so with any
request for a page of tables refused.

* `SegMapped`          a segment is translated, byte by byte;
* `AllOrNothing`       what `lkhv_map_ram` should do;
* `SegInRange`         the segments the tables can hold;
* `mapSegs_done`       what was mapped stays mapped while the segments after it are;
* `lkhvMapRam_all`     when `lkhv_map_ram` does what it should;
* `lkhvMapRam_fails`   not so for RAM that starts in the middle of a page.
-/

namespace LkHv
open Radix

/-- the addresses of a segment are translated to its pages -/
def SegMapped (cfg : Config) (mem : PhysMem) (vttbr : Nat) (seg : PhyMemSeg) : Prop :=
  ∀ o < VM_MEM_BLOCK_2M, stage2Walk cfg mem vttbr (seg.ipa + o) = some (seg.pa + o)

/-- no address is translated to a page of a segment -/
def SegUnmapped (cfg : Config) (mem : PhysMem) (vttbr : Nat) (seg : PhyMemSeg) : Prop :=
  ∀ x pa, stage2Walk cfg mem vttbr x = some pa → pa / PAGE_SIZE ∉ seg.pgs

/-- **All or nothing**: every segment is mapped and 0 is returned, or there is an error and none is mapped. -/
def AllOrNothing (cfg : Config) (segs : List PhyMemSeg) (s : Hv) (vm : VmMem) (ret : Int) : Prop :=
  (ret = 0 ∧ ∀ seg ∈ segs, SegMapped cfg s.mem vm.archMem.vttbr seg) ∨
    (ret < 0 ∧ ∀ seg ∈ segs, SegUnmapped cfg s.mem vm.archMem.vttbr seg)

/-- a segment of whole pages below the configured size -/
def SegInRange (cfg : Config) (seg : PhyMemSeg) : Prop :=
  PAGE_SIZE ∣ seg.ipa ∧ seg.ipa + VM_MEM_BLOCK_2M ≤ cfg.ipaLimit

/-! ## translations -/

section
variable {cfg : Config} {mem : PhysMem} {vttbr : Nat} {seg : PhyMemSeg}

/-- the offset in the page is kept -/
theorem stage2Walk_mod {x pa : Nat} (h : stage2Walk cfg mem vttbr x = some pa) : pa % PAGE_SIZE = x % PAGE_SIZE := by
  rw [stage2Walk_eq] at h
  split at h
  · cases h
  · obtain ⟨p, -, rfl⟩ := Option.map_eq_some_iff.mp h
    rw [Nat.mul_add_mod, Nat.mod_mod]

/-- a segment can only be mapped where the tables can hold it -/
theorem SegMapped.inRange (h : SegMapped cfg mem vttbr seg) (hpa : VM_MEM_BLOCK_2M ∣ seg.pa) :
    SegInRange cfg seg := by
  constructor
  · have h0 := stage2Walk_mod (h 0 (by decide))
    simp only [Nat.add_zero, PAGE_SIZE, VM_MEM_BLOCK_2M] at h0 hpa ⊢
    omega
  · have hlast := h (VM_MEM_BLOCK_2M - 1) (by decide)
    rw [stage2Walk_eq] at hlast
    split at hlast
    · cases hlast
    · unfold VM_MEM_BLOCK_2M at *
      omega

/-- the pages of a segment, where the tables have them -/
def PagesMapped (cfg : Config) (mem : PhysMem) (vttbr : Nat) (seg : PhyMemSeg) : Prop :=
  ∀ o < 512, pageWalk cfg mem vttbr (cfg.page seg.ipa o) = some (seg.pa / PAGE_SIZE + o)

theorem SegInRange.page (h : SegInRange cfg seg) {o : Nat} (ho : o < 512) :
    cfg.page seg.ipa o = seg.ipa / PAGE_SIZE + o :=
  page_of_limit h.2 (by unfold PAGE_SIZE VM_MEM_BLOCK_2M; omega)

/-- bytes for pages -/
theorem PagesMapped.bytes (h : PagesMapped cfg mem vttbr seg) (hr : SegInRange cfg seg)
    (hpa : VM_MEM_BLOCK_2M ∣ seg.pa) : SegMapped cfg mem vttbr seg := by
  intro o ho
  have hlim := hr.2
  have halign := hr.1
  have hpage : o / PAGE_SIZE < 512 := by
    unfold VM_MEM_BLOCK_2M PAGE_SIZE at *
    omega
  have hx : (seg.ipa + o) / PAGE_SIZE = seg.ipa / PAGE_SIZE + o / PAGE_SIZE := by
    unfold PAGE_SIZE at *
    omega
  have hw := h _ hpage
  rw [hr.page hpage] at hw
  rw [stage2Walk_eq, if_neg (by omega), hx, hw]
  show some _ = some _
  congr 1
  simp only [PAGE_SIZE, VM_MEM_BLOCK_2M] at *
  omega

/-- a VM without RAM has no segment mapped -/
theorem NoRam.unmapped {s : Hv} {a : ArchVmMem} (h : NoRam cfg s a) (hram : ∀ p ∈ seg.pgs, s.pmm.Ram p) :
    SegUnmapped cfg s.mem a.vttbr seg := by
  intro x pa hx hp
  obtain ⟨hspan, hw⟩ := stage2Walk_page hx
  exact h _ hspan _ hw (hram _ hp)

end

/-! ## the loop -/

/-- the segments have no address in common -/
def SegsApart (segs : List PhyMemSeg) : Prop := segs.Pairwise fun a b => a.ipa + VM_MEM_BLOCK_2M ≤ b.ipa

section
variable {V : Type} [DecidableEq V] {cfg : Config} {s s' : Hv} {am : V → ArchVmMem}
  {lab lab' : Nat → Option (Label V)} {v : V} {vm vm' : VmMem}

/-- mapping one segment leaves those before it alone -/
theorem PagesMapped.keep {a seg : PhyMemSeg} (h : PagesMapped cfg s.mem (am v).vttbr a) (ha : SegInRange cfg a)
    (hseg : SegInRange cfg seg) (hap : a.ipa + VM_MEM_BLOCK_2M ≤ seg.ipa) {m : Nat} (hm : m ≤ 512)
    (hu : Upto cfg s s' am v vm vm' seg.ipa VM_MEM_BLOCK_2M (segBlock seg.pa seg)
      (fun o => some (seg.pa / PAGE_SIZE + o)) lab lab' m) : PagesMapped cfg s'.mem vm'.archMem.vttbr a := by
  intro o ho
  have hf := hu.frame v (cfg.page a.ipa o) (cfg.page_lt _ _) fun _ o' ho' e => by
    rw [ha.page ho, hseg.page (by lia)] at e
    unfold VM_MEM_BLOCK_2M PAGE_SIZE at *
    lia
  rw [setAm, Function.update_self] at hf
  rw [pageWalk, hf]
  exact h o ho

/-- **What was mapped stays mapped** while the segments after it are, if no error stops the loop. -/
theorem mapSegs_done {d : Nat} : ∀ (rest before : List PhyMemSeg) {s : Hv} {am : V → ArchVmMem}
    {lab : Nat → Option (Label V)} {vm : VmMem}, (∀ seg ∈ before ++ rest, SegShape d seg ∧ SegInRange cfg seg) →
    SegsApart (before ++ rest) → Tables cfg s am lab → vm.archMem = am v →
    ((am v).st2Table = 0 → RootClean cfg s) → (∀ seg ∈ before, PagesMapped cfg s.mem (am v).vttbr seg) →
    ¬ (mapSegs cfg rest s vm).2.2 < 0 → (mapSegs cfg rest s vm).2.2 = 0 ∧ ∀ seg ∈ before ++ rest,
      PagesMapped cfg (mapSegs cfg rest s vm).1.mem (mapSegs cfg rest s vm).2.1.archMem.vttbr seg := by
  intro rest
  induction rest with
  | nil =>
    intro before s am lab vm _ _ _ ha _ hdone _
    rw [mapSegs, ha, List.append_nil]
    exact ⟨rfl, hdone⟩
  | cons seg rest ih =>
    intro before s am lab vm hsh hap ht ha hc hdone hret
    rw [mapSegs] at hret ⊢
    have hseg := hsh seg (by simp)
    obtain ⟨lab', m, hu, hm, hend, -⟩ := archMemMap_seg hseg.1 ht ha hc
    by_cases hneg : (archMemMap cfg s vm seg.pa seg.ipa VM_MEM_BLOCK_2M).2.2 < 0
    · rw [if_pos hneg] at hret
      exact absurd hneg hret
    rw [if_neg hneg] at hret ⊢
    obtain rfl : m = 512 := hend.resolve_left hneg
    have hself : ∀ x : VmMem, setAm am v x v = x.archMem := fun x => Function.update_self _ _ _
    have happ : before ++ seg :: rest = (before ++ [seg]) ++ rest := by simp
    rw [happ] at hsh hap ⊢
    refine ih (before ++ [seg]) hsh hap hu.tables (hself _).symm (by rw [hself]; exact hu.clean) ?_ hret
    intro a hmem
    rw [hself]
    rcases List.mem_append.mp hmem with hb | hb
    · have hlt := (List.pairwise_append.mp (List.pairwise_append.mp hap).1).2.2 a hb seg (by simp)
      exact (hdone a hb).keep (hsh a (by simp [hb])).2 hseg.2 hlt le_rfl hu
    · obtain rfl := List.mem_singleton.mp hb
      exact hu.done

/-- **`lkhv_map_ram` without an error** has mapped every segment. -/
theorem lkhvMapRam_done {d : Nat} {segs : List PhyMemSeg} (hsh : ∀ seg ∈ segs, SegShape d seg ∧ SegInRange cfg seg)
    (hap : SegsApart segs) (hsegs : vm.segs = some segs) (ht : Tables cfg s am lab) (ha : vm.archMem = am v)
    (hc : (am v).st2Table = 0 → RootClean cfg s) {ret : Int} (hrun : lkhvMapRam cfg s vm = some (s', vm', ret))
    (hret : ¬ ret < 0) : ret = 0 ∧ ∀ seg ∈ segs, SegMapped cfg s'.mem vm'.archMem.vttbr seg := by
  rw [lkhvMapRam, hsegs, Option.bind_some] at hrun
  dsimp only at hrun
  split at hrun
  · obtain ⟨t, -, ht⟩ := Option.map_eq_some_iff.mp hrun
    cases ht
    rename_i hneg
    exact absurd hneg hret
  · rename_i hneg
    cases hrun
    obtain ⟨-, hdone⟩ := mapSegs_done segs [] hsh hap ht ha hc (fun _ h => absurd h List.not_mem_nil) hneg
    refine ⟨rfl, fun seg hseg => PagesMapped.bytes ?_ (hsh seg hseg).2 (hsh seg hseg).1.pa⟩
    obtain ⟨-, h2, -, -, -, -, h6⟩ := memUnlock_hv cfg (mapSegs cfg segs s vm).1 (mapSegs cfg segs s vm).2.1
    rw [h2, h6]
    exact hdone seg hseg

end

/-! ## the segments of a VM -/

/-- each segment starts where the one before it ends, as long as the tables can hold it -/
theorem allocSegs_apart {cfg : Config} : ∀ (n : Nat) {pmm : Pmm} {ipa : Nat} {segs : List PhyMemSeg},
    (allocSegs n pmm ipa).2 = some segs → (∀ seg ∈ segs, SegInRange cfg seg) →
    (∀ seg ∈ segs, ipa ≤ seg.ipa) ∧ SegsApart segs := by
  intro n
  induction n with
  | zero =>
    intro pmm ipa segs hs _
    cases hs
    exact ⟨fun _ h => absurd h List.not_mem_nil, List.Pairwise.nil⟩
  | succ n ih =>
    intro pmm ipa segs hs hr
    rw [allocSegs] at hs
    dsimp only at hs
    split at hs
    · cases hs
    · obtain ⟨rest, hrest, rfl⟩ := Option.map_eq_some_iff.mp hs
      have hhead := (hr _ List.mem_cons_self).2
      have hoa := cfg.ipaLimit_le_oa
      obtain ⟨hle, hap⟩ := ih hrest fun seg hseg => hr seg (List.mem_cons_of_mem _ hseg)
      rw [Nat.mod_eq_of_lt (by dsimp only at hhead; omega)] at hle
      refine ⟨fun seg hseg => ?_, List.pairwise_cons.mpr ⟨fun seg hseg => hle seg hseg, hap⟩⟩
      rcases List.mem_cons.mp hseg with rfl | hseg
      · exact le_rfl
      · exact Nat.le_trans (Nat.le_add_right _ _) (hle seg hseg)

/-- **`lkhv_map_ram`**, for a VM that maps no RAM, after `lkhv_alloc_mem`: an error leaves nothing mapped, and 0 means
that everything is if and only if the segments are whole pages below the configured size. -/
theorem lkhvMapRam_all {cfg : Config} {info : VmInfo} {s : TableSys} {v : Nat} {pmm : Pmm} {mem : VmMem}
    (hr : (tableSys cfg).Run (RootsClean cfg) s) (hno : NoRam cfg s.hv (s.vm v).archMem)
    (halloc : lkhvAllocMem info s.hv.pmm (s.vm v) true = some (pmm, mem, 0))
    (hclean : (s.vm v).archMem.st2Table = 0 → RootClean cfg { s.hv with pmm := pmm }) :
    ∃ segs s' vm' ret, mem.segs = some segs ∧ lkhvMapRam cfg { s.hv with pmm := pmm } mem = some (s', vm', ret) ∧
      ((∀ seg ∈ segs, SegInRange cfg seg) → AllOrNothing cfg segs s' vm' ret) ∧
      (ret < 0 → AllOrNothing cfg segs s' vm' ret) ∧
      (0 ≤ ret → (AllOrNothing cfg segs s' vm' ret ↔ ∀ seg ∈ segs, SegInRange cfg seg)) := by
  obtain ⟨lab, hi⟩ := tableInv hr
  -- the segments
  rw [lkhvAllocMem] at halloc
  split at halloc
  · cases halloc
  simp only [if_true] at halloc
  split at halloc
  · cases halloc
  rename_i segs hsegs
  obtain ⟨ht, hlen, hsh⟩ := allocSegs_spec _ hi.tables.pmm hsegs
  simp only [Option.some.injEq, Prod.mk.injEq, and_true] at halloc
  obtain ⟨rfl, rfl⟩ := halloc
  have hmem : VmMem.segs { s.vm v with segNum := (memSegCounts info).toNat, memSeg := some segs } = some segs := by
    rw [VmMem.segs]
    split
    · rename_i h0
      rw [List.length_eq_zero_iff.mp (hlen.trans h0)]
    · rfl
  have htab := hi.tables.withPmm ht
  have hno' : NoRam cfg { s.hv with pmm := (allocSegs (memSegCounts info).toNat s.hv.pmm info.ipaStart).1 }
      (s.vm v).archMem := hno.congr (fun _ _ => rfl) ht.ram
  -- an error
  obtain ⟨s', vm', ret, lab', M', he, hedit, -, hfail⟩ := lkhvMapRam_spec (v := v) (fun seg h => hsh seg h) hmem htab
    hi.small rfl hclean (hno'.covered _ _)
  have hnothing : ret < 0 → ∀ seg ∈ segs, SegUnmapped cfg s'.mem vm'.archMem.vttbr seg := by
    intro hneg seg hseg
    refine (hfail hneg).unmapped fun p hp => (hedit.grow.ram p).mpr ((ht.ram p).mpr (ht.free p ?_).1)
    exact List.mem_flatMap.mpr ⟨seg, hseg, hp⟩
  -- everything
  have hall : ¬ ret < 0 → (∀ seg ∈ segs, SegInRange cfg seg) →
      ret = 0 ∧ ∀ seg ∈ segs, SegMapped cfg s'.mem vm'.archMem.vttbr seg := by
    intro hnneg hin
    exact lkhvMapRam_done (fun seg h => ⟨hsh seg h, hin seg h⟩) (allocSegs_apart _ hsegs hin).2 hmem htab rfl hclean
      he hnneg
  refine ⟨segs, s', vm', ret, hmem, he, fun hin => ?_, fun hneg => .inr ⟨hneg, hnothing hneg⟩, fun hpos => ?_⟩
  · by_cases hneg : ret < 0
    · exact .inr ⟨hneg, hnothing hneg⟩
    · exact .inl (hall hneg hin)
  · refine ⟨fun h seg hseg => ?_, fun hin => .inl (hall (by omega) hin)⟩
    rcases h with ⟨-, hmapped⟩ | ⟨hneg, -⟩
    · exact (hmapped seg hseg).inRange (hsh seg hseg).pa
    · omega

/-! ## a board with one segment of RAM -/

instance (cfg : Config) (seg : PhyMemSeg) : Decidable (SegInRange cfg seg) := inferInstanceAs (Decidable (_ ∧ _))

/-- a VM at boot maps nothing -/
theorem NoRam.boot (cfg : Config) (s : Hv) : NoRam cfg s VmMem.boot.archMem := by
  intro k _ p hp
  rw [pageWalk, show VmMem.boot.archMem.vttbr = 0 from rfl, leafWalk_zero] at hp
  cases hp

/-- the RAM of a VM of one segment is mapped -/
theorem lkhvMapRam_all_one : ∃ pmm mem segs s' vm' ret,
    lkhvAllocMem segInfo segSys.sys.hv.pmm VmMem.boot true = some (pmm, mem, 0) ∧ mem.segs = some segs ∧
      lkhvMapRam (smallConfig ⟨20, 2, 0, 0⟩ (by decide)) { segSys.sys.hv with pmm := pmm } mem = some (s', vm', ret) ∧
      AllOrNothing (smallConfig ⟨20, 2, 0, 0⟩ (by decide)) segs s' vm' ret := by
  obtain ⟨⟨pmm, mem, ret⟩, halloc, hcheck⟩ := (Option.any_eq_true _ _).mp
    (show (lkhvAllocMem segInfo segSys.sys.hv.pmm VmMem.boot true).any (fun r => r.2.2 = 0 ∧
      ∀ segs ∈ r.2.1.segs, ∀ seg ∈ segs, SegInRange (smallConfig ⟨20, 2, 0, 0⟩ (by decide)) seg) by decide +kernel)
  obtain ⟨hret, hin⟩ := of_decide_eq_true hcheck
  dsimp only at hret hin
  subst hret
  obtain ⟨segs, s', vm', ret, hsegs, hmap, hdone, -⟩ := lkhvMapRam_all (v := 0)
    (.init (segSys_boot ⟨20, 2, 0, 0⟩ (by decide)).sys) (NoRam.boot _ _) halloc
    fun _ _ _ j h0 h1 => absurd h1 (by
      have : 2 ^ (smallConfig ⟨20, 2, 0, 0⟩ (by decide)).rootOrder = 1 := rfl
      omega)
  exact ⟨pmm, mem, segs, s', vm', ret, halloc, hsegs, hmap, hdone (hin segs hsegs)⟩

/-- **RAM from 2^39 on where 32 bits are configured**: `lkhv_map_ram` reports that it is mapped. -/
theorem lkhvMapRam_fails : ¬ ∀ (cfg : Config) (info : VmInfo) (s : TableSys) (v : Nat) (pmm : Pmm) (mem : VmMem),
    (tableSys cfg).Reach s → NoRam cfg s.hv (s.vm v).archMem →
    lkhvAllocMem info s.hv.pmm (s.vm v) true = some (pmm, mem, 0) → RootClean cfg { s.hv with pmm := pmm } →
    ∃ segs s' vm' ret, mem.segs = some segs ∧ lkhvMapRam cfg { s.hv with pmm := pmm } mem = some (s', vm', ret) ∧
      AllOrNothing cfg segs s' vm' ret := by
  intro h
  obtain ⟨⟨pmm, mem, ret⟩, halloc, hcheck⟩ := (Option.any_eq_true _ _).mp
    (show (lkhvAllocMem ⟨0x200000, 2 ^ 39⟩ segSys.sys.hv.pmm VmMem.boot true).any (fun r => r.2.2 = 0 ∧
      r.2.1.segs.any (fun segs => segs.any fun seg => seg.ipa = 2 ^ 39 ∧ VM_MEM_BLOCK_2M ∣ seg.pa) ∧
      (lkhvMapRam (smallConfig ⟨32, 1, 0, 1⟩ (by decide)) { segSys.sys.hv with pmm := r.1 } r.2.1).any fun t =>
        t.2.2 = 0) by decide +kernel)
  obtain ⟨hret, hseg, hmap⟩ := of_decide_eq_true hcheck
  dsimp only at hret hseg hmap
  subst hret
  obtain ⟨segs, s', vm', ret, hsegs, hrun, hdone⟩ := h (smallConfig ⟨32, 1, 0, 1⟩ (by decide)) ⟨0x200000, 2 ^ 39⟩
    segSys.sys 0 pmm mem (.init (segSys_boot ⟨32, 1, 0, 1⟩ (by decide)).sys) (NoRam.boot _ _) halloc
    fun _ _ j h0 h1 => absurd h1 (by
      have : 2 ^ (smallConfig ⟨32, 1, 0, 1⟩ (by decide)).rootOrder = 1 := rfl
      omega)
  rw [hrun, Option.any_some] at hmap
  have hzero : ret = 0 := of_decide_eq_true hmap
  rw [hsegs, Option.any_some] at hseg
  obtain ⟨seg, hmem, hx⟩ := List.any_eq_true.mp hseg
  obtain ⟨hipa, hpa⟩ := of_decide_eq_true hx
  rcases hdone with ⟨-, hall⟩ | ⟨hneg, -⟩
  · have hin := ((hall seg hmem).inRange hpa).2
    rw [hipa] at hin
    exact absurd hin (by decide)
  · omega

end LkHv
