import LkHv.Kernel.VmmLedger

/-!
# The page accounts of the address spaces

* `Call`, `Callable`, `vmCall`, `vmSys`   the calls of `vmm.c` in any order, on any address spaces;
* `Fits`                        the calls that the code is good for;
* `Ledger.putRegion`, `Ledger.unmapRegions`   the two parts that the calls share;
* `Holds`, `Accounted`          who has a page between the calls;
* `Outcome`                     what a call takes and returns;
* `vm_pages`                    **the pages of the address spaces**.
-/

namespace LkHv
namespace VmmPages
open Radix Stage1 Vmm Vmm.Aspace

/-! ## the calls -/

inductive Call
  | alloc (i : Nat) (mem : Bool) (size : Nat) (place : Place) (alignPow2 flags : Nat)
  | contiguous (i : Nat) (mem : Bool) (size : Nat) (place : Place) (alignPow2 flags : Nat)
  | physical (i : Nat) (mem : Bool) (size : Nat) (place : Place) (alignLog2 paddr flags : Nat)
  | freeRegion (i vaddr : Nat)
  | freeAspace (i : Nat)

def vmCall (s : Vm) : Call → Option (Vm × Int)
  | .alloc i mem size place alignPow2 flags => vmmAlloc s i mem size place alignPow2 flags
  | .contiguous i mem size place alignPow2 flags => vmmAllocContiguous s i mem size place alignPow2 flags
  | .physical i mem size place alignLog2 paddr flags => vmmAllocPhysical s i mem size place alignLog2 paddr flags
  | .freeRegion i vaddr => vmmFreeRegion s i vaddr
  | .freeAspace i => vmmFreeAspace s i

/-- a pointer for the address is a word -/
def PlaceOk : Place → Prop
  | .specific (some vaddr) => vaddr < 2 ^ 64
  | _ => True

instance : (place : Place) → Decidable (PlaceOk place)
  | .specific (some vaddr) => inferInstanceAs (Decidable (vaddr < 2 ^ 64))
  | .specific none => .isTrue trivial
  | .anywhere => .isTrue trivial

/-- the address space exists, numbers are words, and the kernel's own address space is not freed -/
def Callable (s : Vm) : Call → Prop
  | .alloc i _ size place _ _ => i ∈ s.ids ∧ size < 2 ^ 64 ∧ PlaceOk place
  | .contiguous i _ size place _ _ => i ∈ s.ids ∧ size < 2 ^ 64 ∧ PlaceOk place
  | .physical i _ size place _ paddr _ => i ∈ s.ids ∧ size < 2 ^ 64 ∧ PlaceOk place ∧ paddr < 2 ^ 64
  | .freeRegion i _ => i ∈ s.ids
  | .freeAspace i => i ∈ s.ids ∧ (s.space i).arch.kernel = false

instance (s : Vm) : (c : Call) → Decidable (Callable s c)
  | .alloc .. => inferInstanceAs (Decidable (_ ∧ _))
  | .contiguous .. => inferInstanceAs (Decidable (_ ∧ _))
  | .physical .. => inferInstanceAs (Decidable (_ ∧ _))
  | .freeRegion .. => inferInstanceAs (Decidable (_ ∈ _))
  | .freeAspace .. => inferInstanceAs (Decidable (_ ∧ _))

/-- the flags name a cache policy, the page count of a contiguous run is a `uint`, and a region that is freed does
not reach over the end of the tables -/
def Fits (s : Vm) : Call → Prop
  | .alloc _ _ _ _ _ flags => CacheOk flags
  | .contiguous _ _ size _ _ flags => CacheOk flags ∧ roundup64 size PAGE_SIZE / PAGE_SIZE < 2 ^ 32
  | .physical .. => True
  | .freeRegion i vaddr => ∀ r ∈ (s.space i).vm.vmmFindRegion vaddr, Reachable r
  | .freeAspace i => ∀ r ∈ (s.space i).vm.regionList, Reachable r

instance (s : Vm) : (c : Call) → Decidable (Fits s c)
  | .alloc .. => inferInstanceAs (Decidable (CacheOk _))
  | .contiguous .. => inferInstanceAs (Decidable (_ ∧ _))
  | .physical .. => .isTrue trivial
  | .freeRegion i vaddr =>
    inferInstanceAs (Decidable (∀ r, (s.space i).vm.vmmFindRegion vaddr = some r → Reachable r))
  | .freeAspace i => inferInstanceAs (Decidable (∀ r ∈ (s.space i).vm.regionList, Reachable r))

def vmStep (s : Vm) (c : Call) : Option Vm := if Callable s c then (vmCall s c).map Prod.fst else none

/-! ## who has a page -/

/-- `p` is a page table of the address space `i` -/
def Table (s : Vm) (i p : Nat) : Prop :=
  ∃ root lab, (s.space i).arch.ttVirt = PAGE_SIZE * root ∧ TableTree s.mmu root lab ∧ lab p ≠ none

/-- who has the page, between the calls -/
def Holds (s : Vm) (p : Nat) : Holder → Prop
  | .call => False
  | .others => s.others p = true
  | .table i => i ∈ s.ids ∧ Table s i p
  | .region i b => i ∈ s.ids ∧ p ∈ (s.space i).lists b

/-- the leaf of page `k` in the tables of `i` -/
def Vm.look (s : Vm) (i k : Nat) : Option (Nat × Nat) := Stage1.look s.mmu ((s.space i).arch.ttVirt / PAGE_SIZE) k

/-- address spaces that nothing was allocated in; the kernel's may have reserved regions with the boot mappings -/
structure VmInit (s : Vm) : Prop where
  ids : s.ids.Nodup
  pmm : s.mmu.pmm.Wf
  space : ∀ i ∈ s.ids, ∃ root lab, SpaceInv s.mmu (s.space i) root lab ∧
    ((s.space i).arch.kernel = false → s.mmu.pmm.Ram root)
  empty : ∀ i ∈ s.ids, ∀ b, (s.space i).lists b = []
  apart : ∀ p, ∀ i ∈ s.ids, ∀ j ∈ s.ids, Table s i p → Table s j p → i = j
  others : ∀ p, s.others p = true ↔ s.mmu.pmm.Ram p ∧ s.mmu.pmm.nonfree p = true ∧ ∀ i ∈ s.ids, ¬ Table s i p

def vmSys : Machine Vm Call := Machine.ofFun VmInit vmStep

section
variable {s s' : Vm} {held pages : List Nat} {root : Nat → Nat} {lab : Nat → Nat → Option (Label Unit)} {i : Nat}

theorem SpaceInv.table_iff {sp : Space} {mmu : Mmu} {rt : Nat} {lb : Nat → Option (Label Unit)}
    (h : SpaceInv mmu sp rt lb) (p : Nat) :
    (∃ root lab, sp.arch.ttVirt = PAGE_SIZE * root ∧ TableTree mmu root lab ∧ lab p ≠ none) ↔ lb p ≠ none := by
  constructor
  · rintro ⟨root, lab, h1, h2, h3⟩
    rw [h.virt] at h1
    obtain rfl := Nat.eq_of_mul_eq_mul_left (show 0 < PAGE_SIZE by decide) h1
    rwa [TableTree.unique h2 h.tree]
  · exact fun hp => ⟨rt, lb, h.virt, h.tree, hp⟩

/-- the tables take the mapping, whatever it returns -/
def Maps (mmu : Mmu) (sp : Space) (rt : Nat) (lb : Nat → Option (Label Unit)) (res : Option Mmu) : Prop :=
  ∃ mmu' lb', res = some mmu' ∧ SpaceInv mmu' sp rt lb' ∧ Edited (fun _ _ => True) mmu lb mmu' lb'

/-- **The loop of `vmm_alloc`**: page after page of the region's list goes where the one before ends. -/
theorem SpaceInv.mapPages {sp : Space} {rt flags : Nat} {r : Region} (hr : r ∈ sp.vm.regionList)
    (hflags : CacheOk flags) :
    ∀ {ps : List Nat} {mmu lb va k}, SpaceInv mmu sp rt lb → (∀ p ∈ ps, p ∈ sp.lists r.base ∧ p < 2 ^ 36) →
      (ps ≠ [] → va = r.base + k * PAGE_SIZE) → (k + ps.length) * PAGE_SIZE ≤ mapLen r →
      Maps mmu sp rt lb (mapPages sp.arch flags mmu va ps) := by
  intro ps
  induction ps with
  | nil => exact fun {mmu lb _ _} h _ _ _ => ⟨mmu, lb, rfl, h, Edited.refl _ _ _⟩
  | cons p ps ih =>
    intro mmu lb va k h hps hva hlen
    have hva := hva nofun
    obtain ⟨hp, hlt⟩ := hps p (List.mem_cons_self ..)
    rw [List.length_cons] at hlen
    have hend : r.base + mapLen r ≤ 2 ^ 64 :=
      (Nat.add_le_add_left (mapLen_le r) _).trans ((h.rising.mem hr).2.1.trans h.ok.bound)
    have hsucc : (k + (ps.length + 1)) * PAGE_SIZE = k * PAGE_SIZE + ps.length * PAGE_SIZE + PAGE_SIZE := by
      rw [Nat.add_mul, Nat.succ_mul, Nat.add_assoc]
    have hone : va + 1 * PAGE_SIZE ≤ r.base + mapLen r := by lia
    have hal : PAGE_SIZE ∣ va → PAGE_SIZE ∣ r.base := by
      intro hd
      rw [hva] at hd
      exact (Nat.dvd_add_left (Nat.dvd_mul_left _ _)).mp hd
    have hbyte : PAGE_SIZE * p < 2 ^ 64 := by
      unfold PAGE_SIZE
      lia
    obtain ⟨mmu₁, ret, lb₁, h1, h2, h3⟩ := h.map hr flags (by lia) hone hal hbyte (.inr ⟨p, rfl, by lia, hflags,
      fun j hj => by rwa [Nat.lt_one_iff.mp hj]⟩)
    have hnext : ps ≠ [] → add64 va PAGE_SIZE = r.base + (k + 1) * PAGE_SIZE := by
      intro hne
      have := List.length_pos_iff.mpr hne
      unfold add64 PAGE_SIZE at *
      lia
    obtain ⟨mmu₂, lb₂, h4, h5, h6⟩ := ih h2 (fun q hq => hps q (List.mem_cons_of_mem _ hq)) hnext
      (show (k + 1 + ps.length) * PAGE_SIZE ≤ _ by rwa [Nat.add_assoc, Nat.add_comm 1])
    refine ⟨mmu₂, lb₂, ?_, h5, h3.trans h6⟩
    rw [VmmPages.mapPages, h1]
    exact h4

/-- the address space `i` has a new region with these pages, the others are as they were -/
def Allocated (s s' : Vm) (i size : Nat) (pages : List Nat) : Prop :=
  s'.ids = s.ids ∧ (∀ j, j ≠ i → s'.space j = s.space j) ∧ ∃ r, r.size = size ∧ Put (s.space i).vm (s'.space i).vm r ∧
    (s'.space i).lists = Function.update (s.space i).lists r.base pages

theorem setSpace_twice (s : Vm) (i : Nat) (mmu mmu' : Mmu) (sp sp' : Space) :
    (s.setSpace i mmu sp).setSpace i mmu' sp' = s.setSpace i mmu' sp' := by
  unfold Vm.setSpace
  rw [Function.update_idem]

/-- **What the allocations share**: the region is put in and gets the pages, or the pages go back. -/
theorem Ledger.putRegion (h : Ledger s pages root lab) (hi : i ∈ s.ids) (mem : Bool) (k : Nat)
    (map : Mmu → ArchAspace → Nat → Option Mmu) {size : Nat} {specific : Option Nat} (hpos : 0 < size) (h64 : size < 2 ^ 64)
    (hsp : ∀ vaddr, specific = some vaddr → vaddr < 2 ^ 64)
    (hmap : ∀ sp r, r ∈ sp.vm.regionList → r.size = size → sp.lists r.base = pages →
      SpaceInv s.mmu sp (root i) (lab i) → Maps s.mmu sp (root i) (lab i) (map s.mmu sp.arch r.base)) :
    ∃ s' ret, putRegion s i mem size specific k pages map = some (s', ret) ∧ (∃ lab', Ledger s' [] root lab') ∧
      (ret = ERR_NO_MEMORY ∧ s' = s.setPmm (pmmFree s.mmu.pmm pages) ∨ ret = 0 ∧ Allocated s s' i size pages) := by
  have hs := h.space i hi
  unfold VmmPages.putRegion
  dsimp only
  have hcases := @allocRegion_rising _ _ hs.ok hs.rising mem specific k hpos h64 hsp
  by_cases hok : ((s.space i).vm.allocRegion mem size specific k).2 = true
  · rw [if_pos hok]
    have hput := hcases.resolve_left (by simp [hok])
    generalize hr : (⟨regionBase (s.space i).vm size specific k, size⟩ : Region) = r at hput
    have hrb : regionBase (s.space i).vm size specific k = r.base := by rw [← hr]
    have hrs : r.size = size := by rw [← hr]
    rw [hrb]
    generalize ((s.space i).vm.allocRegion mem size specific k).1 = vm at hput
    have hnone : (s.space i).lists r.base = [] := by
      by_contra hne
      obtain ⟨x, hx, hxb⟩ := hs.lists _ hne
      exact hput.new x hx hxb
    have hs₁ := hs.put hput pages
    have hperm : List.Perm (pages ++ []) ((s.space i).lists r.base ++ pages) := by
      rw [hnone, List.append_nil, List.nil_append]
    have hm := h.move hi hs₁ hperm
    obtain ⟨mmu', lb', h1, h2, h3⟩ := hmap _ r ((hput.mem r).mpr (.inl rfl)) hrs
      (show Function.update (s.space i).lists r.base pages r.base = pages from Function.update_self ..) hs₁
    have hself : (s.setSpace i s.mmu { s.space i with vm, lists := Function.update (s.space i).lists r.base pages }).space
        i = { s.space i with vm, lists := Function.update (s.space i).lists r.base pages } := Function.update_self ..
    have he := hm.edit hi h2 h3 (by rw [hself]) (by rw [hself])
    rw [setSpace_twice] at he
    refine ⟨_, 0, by rw [h1]; rfl, ⟨_, he⟩, .inr ⟨rfl, rfl, fun j hj => Function.update_of_ne hj _ _, r, hrs, ?_, ?_⟩⟩
    · show Put _ (Function.update s.space i _ i).vm r
      rw [Function.update_self]
      exact hput
    · show (Function.update s.space i _ i).lists = _
      rw [Function.update_self]
  · rw [if_neg hok]
    have hg : Ledger s (pages ++ []) root lab := by rwa [List.append_nil]
    exact ⟨_, _, rfl, ⟨lab, hg.give.1⟩, .inl ⟨rfl, rfl⟩⟩

/-- **A region is unmapped**; the call has its pages now. -/
theorem Ledger.unmapRegion (h : Ledger s held root lab) (hi : i ∈ s.ids) {r : Region}
    (hr : r ∈ (s.space i).vm.regionList) (hreach : Reachable r) :
    ∃ mmu' ret lb', archMmuUnmap s.mmu (s.space i).arch r.base (pageCount r.size) = some (mmu', ret) ∧
      Ledger (s.setSpace i mmu' ((s.space i).drop r)) (held ++ (s.space i).lists r.base) root (Function.update lab i lb') ∧
      Edited (fun _ _ => True) s.mmu (lab i) mmu' lb' := by
  have hs := (h.space i hi).detach r.base
  have hperm : List.Perm (held ++ (s.space i).lists r.base) ((s.space i).lists r.base ++ held) := List.perm_append_comm
  have hm := h.move hi hs hperm
  obtain ⟨mmu', ret, lb', h1, h2, h3⟩ := hs.unmap hr hreach
  have hself : (s.setSpace i s.mmu { s.space i with lists := Function.update (s.space i).lists r.base [] }).space i =
      { s.space i with lists := Function.update (s.space i).lists r.base [] } := Function.update_self ..
  have hdrop : Space.drop { s.space i with lists := Function.update (s.space i).lists r.base [] } r =
      (s.space i).drop r := by
    unfold Space.drop
    rw [Function.update_idem]
  rw [hdrop] at h2
  have he := hm.edit hi h2 h3 (by rw [hself]; rfl) (by rw [hself]; rfl)
  rw [setSpace_twice] at he
  exact ⟨mmu', ret, lb', h1, he, h3⟩

/-- the regions of an address space that is freed -/
theorem Ledger.unmapRegions :
    ∀ {rs : List Region} {s held lab}, Ledger s held root lab → i ∈ s.ids → (s.space i).vm.regionList = rs →
      (∀ r ∈ rs, Reachable r) → ∃ mmu' sp' lb', unmapRegions (s.space i).arch s.mmu rs = some mmu' ∧
        Ledger (s.setSpace i mmu' sp') (held ++ rs.flatMap fun r => (s.space i).lists r.base) root
          (Function.update lab i lb') ∧
        sp'.vm.regionList = [] ∧ sp'.arch = (s.space i).arch ∧ Edited (fun _ _ => True) s.mmu (lab i) mmu' lb' := by
  intro rs
  induction rs with
  | nil =>
    intro s held lab h hi hrs _
    refine ⟨s.mmu, s.space i, lab i, rfl, ?_, hrs, rfl, Edited.refl _ _ _⟩
    have hself : s.setSpace i s.mmu (s.space i) = s := by
      unfold Vm.setSpace
      rw [Function.update_eq_self]
    rw [hself, Function.update_eq_self]
    simpa using h
  | cons r rs ih =>
    intro s held lab h hi hrs hreach
    have hr : r ∈ (s.space i).vm.regionList := by rw [hrs]; exact List.mem_cons_self ..
    obtain ⟨mmu₁, ret, lb₁, h1, h2, h3⟩ := h.unmapRegion hi hr (hreach r (List.mem_cons_self ..))
    have hself : (s.setSpace i mmu₁ ((s.space i).drop r)).space i = (s.space i).drop r := Function.update_self ..
    have hrest : ((s.setSpace i mmu₁ ((s.space i).drop r)).space i).vm.regionList = rs := by
      rw [hself]
      show (s.space i).vm.regionList.erase r = rs
      rw [hrs, List.erase_cons_head]
    obtain ⟨mmu₂, sp₂, lb₂, h4, h5, h6, h7, h8⟩ := ih h2 hi hrest fun q hq => hreach q (List.mem_cons_of_mem _ hq)
    rw [hself] at h4 h5 h7
    rw [setSpace_twice, Function.update_idem] at h5
    rw [Function.update_self] at h8
    have hlists : (rs.flatMap fun q => ((s.space i).drop r).lists q.base) = rs.flatMap fun q => (s.space i).lists q.base := by
      apply List.flatMap_congr
      intro q hq
      have hq' : q ∈ (s.space i).vm.regionList := by rw [hrs]; exact List.mem_cons_of_mem _ hq
      have hne : q.base ≠ r.base := by
        intro e
        have hqr := (h.space i hi).rising.base_inj hq' hr e
        have hnd := (h.space i hi).rising.nodup
        rw [hrs] at hnd
        exact (List.nodup_cons.mp hnd).1 (hqr ▸ hq)
      exact Function.update_of_ne hne _ _
    rw [hlists, List.append_assoc, ← List.flatMap_cons (f := fun q : Region => (s.space i).lists q.base)] at h5
    refine ⟨mmu₂, sp₂, lb₂, ?_, h5, h6, h7, h3.trans h8⟩
    rw [VmmPages.unmapRegions, h1]
    exact h4

/-- the page lists go back one after the other -/
theorem Ledger.freeLists {lists : Nat → List Nat} {keep : List Nat} :
    ∀ {rs : List Region} {s lab}, Ledger s ((rs.flatMap fun r => lists r.base) ++ keep) root lab →
      Ledger (s.setPmm (freeLists lists s.mmu.pmm rs)) keep root lab ∧
        s.mmu.pmm.Gives (freeLists lists s.mmu.pmm rs) (rs.flatMap fun r => lists r.base) := by
  intro rs
  induction rs with
  | nil => exact fun {s _} h => ⟨h, h.wf, fun _ => Iff.rfl, fun p => by simp [VmmPages.freeLists], rfl⟩
  | cons r rs ih =>
    intro s lab h
    rw [List.flatMap_cons, List.append_assoc] at h
    obtain ⟨h1, h2⟩ := h.give
    obtain ⟨h3, h4⟩ := ih h1
    exact ⟨h3, h2.trans h4⟩

end

/-! ## what a call does -/

/-- nothing was taken and nothing is mapped -/
def Refused (s s' : Vm) : Prop :=
  s'.ids = s.ids ∧ s'.space = s.space ∧ s'.mmu.mem = s.mmu.mem ∧ ∀ p, s'.mmu.pmm.Free p ↔ s.mmu.pmm.Free p

/-- a region with pages that were free -/
def Granted (s s' : Vm) (i size : Nat) (pages : List Nat) : Prop :=
  (∀ p ∈ pages, s.mmu.pmm.Free p) ∧ pages.length * PAGE_SIZE = size ∧ Allocated s s' i size pages

/-- **What a call takes and returns.** -/
def Outcome (s s' : Vm) (ret : Int) : Call → Prop
  | .alloc i _ size .. => ret < 0 ∧ Refused s s' ∨ ret = 0 ∧ ∃ pages, Granted s s' i (roundup64 size PAGE_SIZE) pages
  | .contiguous i _ size .. =>
    ret < 0 ∧ Refused s s' ∨ ret = 0 ∧ ∃ p n, Granted s s' i (roundup64 size PAGE_SIZE) (List.range' p n)
  | .physical i _ size .. => ret < 0 ∧ Refused s s' ∨ ret = 0 ∧ (size = 0 ∧ s' = s ∨ Allocated s s' i size [])
  | .freeRegion i vaddr => ret < 0 ∧ s' = s ∨ ret = 0 ∧ ∃ r ∈ (s.space i).vm.regionList,
      r.base ≤ vaddr ∧ vaddr < r.base + r.size ∧ s'.ids = s.ids ∧
      s'.space = Function.update s.space i ((s.space i).drop r) ∧
      ∀ p ∈ (s.space i).lists r.base, s'.mmu.pmm.Free p
  | .freeAspace i => ret = 0 ∧ s'.ids = s.ids.erase i ∧ s'.space = s.space ∧
      ∀ p, (∃ b, p ∈ (s.space i).lists b) ∨ Table s i p → s'.mmu.pmm.Free p

section
variable {s s' : Vm} {held pages : List Nat} {root : Nat → Nat} {lab : Nat → Nat → Option (Label Unit)}
  {i size k flags : Nat} {mem : Bool} {place : Place}

theorem Refused.refl (s : Vm) : Refused s s := ⟨rfl, rfl, rfl, fun _ => Iff.rfl⟩

/-- pages that are taken and given back -/
theorem refused_of_gives {pmm pmm' : Pmm} {pgs : List Nat} (hw : s.mmu.pmm.Wf) (ht : s.mmu.pmm.Takes pmm pgs)
    (hg : pmm.Gives pmm' pgs) : Refused s (s.setPmm pmm') := by
  refine ⟨rfl, rfl, rfl, fun p => ?_⟩
  show pmm'.Free p ↔ _
  rw [hg.wf.free_iff, hw.free_iff, hg.ram, ht.ram, hg.nonfree, ht.nonfree, setNonfree]
  refine and_congr_right fun _ => ?_
  by_cases hp : p ∈ pgs
  · simp [hp, (ht.free p hp).2]
  · simp [hp]

theorem roundup64_lt (size : Nat) : roundup64 size PAGE_SIZE < 2 ^ 64 :=
  (Nat.div_mul_le_self _ _).trans_lt (Nat.mod_lt _ (by decide))

theorem roundup64_pages (size : Nat) :
    roundup64 size PAGE_SIZE / PAGE_SIZE * PAGE_SIZE = roundup64 size PAGE_SIZE := by
  rw [roundup64, Nat.mul_div_cancel _ (show 0 < PAGE_SIZE by decide)]

theorem PlaceOk.vaddr (h : PlaceOk place) {specific : Option Nat} (hv : place.vaddr = some specific) :
    ∀ vaddr, specific = some vaddr → vaddr < 2 ^ 64 := by
  rintro vaddr rfl
  cases place with
  | anywhere => cases hv
  | specific ptr =>
    cases ptr with
    | none => cases hv
    | some v =>
      cases hv
      exact h

/-- the pages that go into a new region come from the free lists -/
theorem granted_of_takes {pmm : Pmm} {pgs : List Nat} (hw : s.mmu.pmm.Wf) (ht : s.mmu.pmm.Takes pmm pgs)
    (hl : pgs.length * PAGE_SIZE = size) (ha : Allocated (s.setPmm pmm) s' i size pgs) : Granted s s' i size pgs :=
  ⟨fun p hp => (hw.free_iff p).mpr (ht.free p hp), hl, ha⟩

theorem Ledger.vmmAlloc (h : Ledger s [] root lab) (hi : i ∈ s.ids) (hplace : PlaceOk place)
    (hflags : CacheOk flags) :
    ∃ s' ret, vmmAlloc s i mem size place k flags = some (s', ret) ∧ (∃ lab', Ledger s' [] root lab') ∧
      Outcome s s' ret (.alloc i mem size place k flags) := by
  unfold VmmPages.vmmAlloc
  dsimp only
  have hlt := roundup64_lt size
  have hpages := roundup64_pages size
  generalize hn : roundup64 size PAGE_SIZE = n at hlt hpages
  by_cases h0 : n = 0
  · rw [if_pos h0]
    exact ⟨s, _, rfl, ⟨lab, h⟩, .inl ⟨show ERR_INVALID_ARGS < 0 by decide, Refused.refl s⟩⟩
  rw [if_neg h0]
  cases hv : place.vaddr with
  | none => exact ⟨s, _, rfl, ⟨lab, h⟩, .inl ⟨show ERR_INVALID_ARGS < 0 by decide, Refused.refl s⟩⟩
  | some specific =>
    dsimp only
    have ht := h.wf.allocPages (pageCount n)
    have hle : (pmmAllocPages s.mmu.pmm (pageCount n)).2.length ≤ pageCount n := by
      rw [pmmAllocPages]
      split
      · exact Nat.zero_le _
      · exact Pmm.allocWalk_length _ _
    generalize pmmAllocPages s.mmu.pmm (pageCount n) = r at ht hle
    have htake := h.take ht
    by_cases hfew : r.2.length < n / PAGE_SIZE
    · rw [if_pos hfew]
      have hg : Ledger (s.setPmm r.1) (r.2 ++ []) root lab := by rwa [List.append_nil]
      exact ⟨_, _, rfl, ⟨lab, hg.give.1⟩, .inl ⟨show ERR_NO_MEMORY < 0 by decide, refused_of_gives h.wf ht hg.give.2⟩⟩
    rw [if_neg hfew]
    have hcount : r.2.length = n / PAGE_SIZE := Nat.le_antisymm (hle.trans (Nat.mod_le _ _)) (Nat.not_lt.mp hfew)
    obtain ⟨s', ret, h1, h2, h3⟩ := htake.putRegion hi mem k
      (fun mmu arch base => mapPages arch flags mmu base r.2) (Nat.pos_of_ne_zero h0) hlt (hplace.vaddr hv)
      fun sp x hx hxs hxl hs => by
        refine hs.mapPages hx hflags (k := 0) (fun p hp => ⟨hxl ▸ hp, (h.wf.ram_lt (ht.free p hp).1).2⟩)
          (fun _ => by rw [Nat.zero_mul, Nat.add_zero]) ?_
        rw [Nat.zero_add, mapLen, hxs]
        exact Nat.mul_le_mul_right _ hle
    refine ⟨s', ret, h1, h2, ?_⟩
    rcases h3 with ⟨rfl, rfl⟩ | ⟨rfl, ha⟩
    · have hg : Ledger (s.setPmm r.1) (r.2 ++ []) root lab := by rwa [List.append_nil]
      exact .inl ⟨show ERR_NO_MEMORY < 0 by decide, refused_of_gives h.wf ht hg.give.2⟩
    · refine .inr ⟨rfl, r.2, ?_⟩
      rw [hn]
      exact granted_of_takes h.wf ht (by rw [hcount, hpages]) ha

theorem Ledger.vmmAllocContiguous (h : Ledger s [] root lab) (hi : i ∈ s.ids) (hplace : PlaceOk place)
    (hflags : CacheOk flags) (hfit : roundup64 size PAGE_SIZE / PAGE_SIZE < 2 ^ 32) :
    ∃ s' ret, vmmAllocContiguous s i mem size place k flags = some (s', ret) ∧ (∃ lab', Ledger s' [] root lab') ∧
      Outcome s s' ret (.contiguous i mem size place k flags) := by
  unfold VmmPages.vmmAllocContiguous
  dsimp only
  have hlt := roundup64_lt size
  have hpages := roundup64_pages size
  generalize hn : roundup64 size PAGE_SIZE = n at hlt hpages hfit
  by_cases h0 : n = 0
  · rw [if_pos h0]
    exact ⟨s, _, rfl, ⟨lab, h⟩, .inl ⟨show ERR_INVALID_ARGS < 0 by decide, Refused.refl s⟩⟩
  rw [if_neg h0]
  cases hv : place.vaddr with
  | none => exact ⟨s, _, rfl, ⟨lab, h⟩, .inl ⟨show ERR_INVALID_ARGS < 0 by decide, Refused.refl s⟩⟩
  | some specific =>
    dsimp only
    have hcount : pageCount n = n / PAGE_SIZE := Nat.mod_eq_of_lt hfit
    have hc : pageCount n ≠ 0 := by
      intro hz
      rw [← hcount, hz, Nat.zero_mul] at hpages
      exact h0 hpages.symm
    rcases h.wf.allocContiguous (pageCount n) k hc with ⟨p, e1, ht, -, -⟩ | ⟨e1, ht, -⟩
    · rw [e1]
      dsimp only
      rw [if_neg (by lia)]
      generalize (pmmAllocContiguous s.mmu.pmm (pageCount n) k).1 = pmm at ht
      have htake := h.take ht
      have hram : ∀ j < pageCount n, p + j < 2 ^ 36 := fun j hj =>
        (h.wf.ram_lt (ht.free (p + j) (List.mem_range'_1.mpr (by lia))).1).2
      have hlast := hram (pageCount n - 1) (by lia)
      obtain ⟨s', ret, h1, h2, h3⟩ := htake.putRegion hi mem k
        (fun mmu arch base => (archMmuMap mmu arch base (PAGE_SIZE * p) (pageCount n) flags).map Prod.fst)
        (Nat.pos_of_ne_zero h0) hlt (hplace.vaddr hv)
        fun sp x hx hxs hxl hs => by
          have hend : x.base + pageCount n * PAGE_SIZE ≤ x.base + mapLen x := by rw [mapLen, hxs]
          have hbyte : PAGE_SIZE * p < 2 ^ 64 := by
            unfold PAGE_SIZE
            lia
          obtain ⟨mmu', ret, lb', m1, m2, m3⟩ := hs.map hx flags (le_refl _) hend id hbyte
            (.inr ⟨p, rfl, by lia, hflags, fun j hj => by
              rw [hxl]
              exact List.mem_range'_1.mpr (by lia)⟩)
          exact ⟨mmu', lb', by rw [m1]; rfl, m2, m3⟩
      refine ⟨s', ret, h1, h2, ?_⟩
      rcases h3 with ⟨rfl, rfl⟩ | ⟨rfl, ha⟩
      · have hg : Ledger (s.setPmm pmm) (List.range' p (pageCount n) ++ []) root lab := by rwa [List.append_nil]
        exact .inl ⟨show ERR_NO_MEMORY < 0 by decide, refused_of_gives h.wf ht hg.give.2⟩
      · refine .inr ⟨rfl, p, pageCount n, ?_⟩
        rw [hn]
        exact granted_of_takes h.wf ht (by rw [List.length_range', hcount, hpages]) ha
    · rw [e1]
      have htake := h.take ht
      have hg : Ledger (s.setPmm (pmmAllocContiguous s.mmu.pmm (pageCount n) k).1) ([] ++ []) root lab := htake
      exact ⟨_, _, rfl, ⟨lab, htake⟩, .inl ⟨show ERR_NO_MEMORY < 0 by decide, refused_of_gives h.wf ht hg.give.2⟩⟩

theorem Ledger.vmmAllocPhysical {paddr : Nat} (h : Ledger s [] root lab) (hi : i ∈ s.ids) (hsize : size < 2 ^ 64)
    (hplace : PlaceOk place) (hpaddr : paddr < 2 ^ 64) :
    ∃ s' ret, vmmAllocPhysical s i mem size place k paddr flags = some (s', ret) ∧ (∃ lab', Ledger s' [] root lab') ∧
      Outcome s s' ret (.physical i mem size place k paddr flags) := by
  unfold VmmPages.vmmAllocPhysical
  have hrefuse : ∃ s' ret, some (s, ERR_INVALID_ARGS) = some (s', ret) ∧ (∃ lab', Ledger s' [] root lab') ∧
      Outcome s s' ret (.physical i mem size place k paddr flags) :=
    ⟨s, _, rfl, ⟨lab, h⟩, .inl ⟨show ERR_INVALID_ARGS < 0 by decide, Refused.refl s⟩⟩
  by_cases h0 : size = 0
  · rw [if_pos h0]
    exact ⟨s, 0, rfl, ⟨lab, h⟩, .inr ⟨rfl, .inl ⟨h0, rfl⟩⟩⟩
  rw [if_neg h0]
  split
  · exact hrefuse
  cases hv : place.vaddr with
  | none => exact hrefuse
  | some specific =>
    dsimp only
    obtain ⟨s', ret, h1, h2, h3⟩ := h.putRegion hi mem k
      (fun mmu arch base => (archMmuMap mmu arch base paddr (pageCount size) flags).map Prod.fst)
      (Nat.pos_of_ne_zero h0) hsize (hplace.vaddr hv)
      fun sp x hx hxs hxl hs => by
        have hend : x.base + pageCount size * PAGE_SIZE ≤ x.base + mapLen x := by rw [mapLen, hxs]
        obtain ⟨mmu', ret, lb', m1, m2, m3⟩ := hs.map hx flags (le_refl _) hend id hpaddr (.inl hxl)
        exact ⟨mmu', lb', by rw [m1]; rfl, m2, m3⟩
    refine ⟨s', ret, h1, h2, ?_⟩
    rcases h3 with ⟨rfl, rfl⟩ | ⟨rfl, ha⟩
    · exact .inl ⟨show ERR_NO_MEMORY < 0 by decide, Refused.refl s⟩
    · exact .inr ⟨rfl, .inr ha⟩

theorem Ledger.vmmFreeRegion {vaddr : Nat} (h : Ledger s [] root lab) (hi : i ∈ s.ids)
    (hfit : ∀ r ∈ (s.space i).vm.vmmFindRegion vaddr, Reachable r) :
    ∃ s' ret, vmmFreeRegion s i vaddr = some (s', ret) ∧ (∃ lab', Ledger s' [] root lab') ∧
      Outcome s s' ret (.freeRegion i vaddr) := by
  unfold VmmPages.vmmFreeRegion
  dsimp only
  cases hf : (s.space i).vm.vmmFindRegion vaddr with
  | none => exact ⟨s, _, rfl, ⟨lab, h⟩, .inl ⟨show ERR_NOT_FOUND < 0 by decide, rfl⟩⟩
  | some r =>
    have hs := h.space i hi
    have hr : r ∈ (s.space i).vm.regionList := List.mem_of_find?_eq_some hf
    obtain ⟨-, hhi, hpos⟩ := hs.rising.mem hr
    have hb := hs.ok.bound
    have hin : r.base ≤ vaddr ∧ vaddr ≤ last64 r.base r.size := by
      simpa using List.find?_some (show (s.space i).vm.regionList.find? _ = some r from hf)
    have hlt := hs.ok.sizeLt
    have hlo := (hs.rising.mem hr).1
    rw [last64_eq (by omega) hpos] at hin
    obtain ⟨mmu', ret, lb', h1, h2, -⟩ := h.unmapRegion hi hr (hfit r hf)
    dsimp only
    rw [h1]
    have hg : Ledger (s.setSpace i mmu' ((s.space i).drop r)) ((s.space i).lists r.base ++ []) root
        (Function.update lab i lb') := by rwa [List.append_nil]
    refine ⟨_, 0, rfl, ⟨_, hg.give.1⟩, .inr ⟨rfl, r, hr, hin.1, by omega, rfl, rfl, fun p hp => ?_⟩⟩
    refine (hg.give.2.wf.free_iff p).mpr ⟨(hg.give.2.ram p).mpr (h2.ram p .call hp nofun), ?_⟩
    rw [hg.give.2.nonfree]
    simp [hp]

theorem Ledger.vmmFreeAspace (h : Ledger s [] root lab) (hi : i ∈ s.ids) (hk : (s.space i).arch.kernel = false)
    (hfit : ∀ r ∈ (s.space i).vm.regionList, Reachable r) :
    ∃ s' ret, vmmFreeAspace s i = some (s', ret) ∧ (∃ lab', Ledger s' [] root lab') ∧
      Outcome s s' ret (.freeAspace i) := by
  unfold VmmPages.vmmFreeAspace
  rw [if_neg (not_not.mpr hi)]
  dsimp only
  have hs := h.space i hi
  obtain ⟨mmu', sp', lb', h1, h2, h3, h4, h5⟩ := h.unmapRegions hi rfl hfit
  rw [h1]
  have hself : (s.setSpace i mmu' sp').space i = sp' := Function.update_self ..
  have hrm := h2.remove hi (by rw [hself, h4]; exact hk) (by rw [hself]; exact h3) s.space
    fun j hj => (Function.update_of_ne hj _ _).symm
  rw [List.nil_append] at hrm
  obtain ⟨hl, hgl⟩ := hrm.freeLists
  have hroot : (s.space i).arch.ttVirt / PAGE_SIZE = root i := by
    rw [hs.virt, Nat.mul_div_cancel_left _ (show 0 < PAGE_SIZE by decide)]
  rw [hroot]
  have hlast : Ledger _ ([root i] ++ []) root _ := hl
  obtain ⟨he, hge⟩ := hlast.give
  have hgive := hgl.trans hge
  have hram : ∀ p, (pmmFree (VmmPages.freeLists (s.space i).lists mmu'.pmm (s.space i).vm.regionList) [root i]).Ram p ↔
      s.mmu.pmm.Ram p := fun p => (hgive.ram p).trans (h5.ram p)
  refine ⟨_, 0, rfl, ⟨Function.update lab i lb', he⟩, rfl, rfl, rfl, fun p hp => ?_⟩
  refine (hgive.wf.free_iff p).mpr ?_
  rw [hgive.nonfree]
  rcases hp with ⟨b, hp⟩ | hp
  · obtain ⟨r, hr, rfl⟩ := hs.lists b (List.ne_nil_of_mem hp)
    refine ⟨(hram p).mpr (h.ram p (.region i r.base) ⟨hi, hp⟩ nofun), ?_⟩
    have hm : p ∈ (s.space i).vm.regionList.flatMap fun r => (s.space i).lists r.base := List.mem_flatMap.mpr ⟨r, hr, hp⟩
    simp [hm]
  · have hlab := (hs.table_iff p).mp hp
    by_cases e : p = root i
    · rw [e]
      exact ⟨(hram _).mpr (h.user i hi hk), by simp⟩
    · refine ⟨(hram p).mpr (hs.tree.used p e hlab).1, ?_⟩
      -- a table that is not free is still a table, and there is none but the root
      have hfree : mmu'.pmm.nonfree p = false := by
        by_contra hn
        have hlb := (h5.taken p (by simpa using hn)).resolve_right fun hx => hlab hx.2
        have hsp : SpaceInv mmu' sp' (root i) lb' := by
          have := h2.space i hi
          rwa [hself, Function.update_self] at this
        obtain ⟨⟨⟨⟩, l, q⟩, hx⟩ := Option.ne_none_iff_exists'.mp hlb
        obtain ⟨r, hr, -⟩ := hsp.tables p l q hx e
        rw [h3] at hr
        cases hr
      show (mmu'.pmm.nonfree p && _) = false
      rw [hfree, Bool.false_and]

theorem Ledger.vmCall {c : Call} (h : Ledger s [] root lab) (hc : Callable s c) (hf : Fits s c) :
    ∃ s' ret, vmCall s c = some (s', ret) ∧ (∃ lab', Ledger s' [] root lab') ∧ Outcome s s' ret c := by
  cases c with
  | alloc i mem size place k flags => exact h.vmmAlloc hc.1 hc.2.2 hf
  | contiguous i mem size place k flags => exact h.vmmAllocContiguous hc.1 hc.2.2 hf.1 hf.2
  | physical i mem size place k paddr flags => exact h.vmmAllocPhysical hc.1 hc.2.1 hc.2.2.1 hc.2.2.2
  | freeRegion i vaddr => exact h.vmmFreeRegion hc hf
  | freeAspace i => exact h.vmmFreeAspace hc.1 hc.2 hf

end

/-! ## two address spaces -/

/-- an address space without regions and with an empty root -/
theorem SpaceInv.init {mem : PhysMem} {pmm : Pmm} {root base size : Nat} {kernel : Bool} (hw : pmm.Wf)
    (hroot : pmm.Ram root → pmm.nonfree root = true) (hne : root ≠ 0) (hmem : ∀ i < 512, mem (pteAddr root i) = 0)
    (hok : Vmm.Aspace.Ok ⟨base, size, []⟩) :
    SpaceInv ⟨mem, pmm⟩ ⟨⟨base, size, []⟩, ⟨PAGE_SIZE * root, kernel, base, size⟩, fun _ => []⟩ root
      (rootOnly root) where
  virt := rfl
  root_ne := hne
  base := rfl
  size := rfl
  ok := hok
  tree := TableTree.init hw hroot hmem
  zeroed f i hf hi := by
    obtain ⟨x, hx⟩ := Option.ne_none_iff_exists'.mp hf
    obtain ⟨rfl, -⟩ := rootOnly_some hx
    exact .inl (hmem i hi)
  rising := Nat.le_add_right _ _
  lists _ hne := absurd rfl hne
  leaves k hk q hq := by
    have h0 : descStore mem (2 + 1) root (digit 512 (2 + 1) k) = .empty := by
      rw [descStore, hmem (digit 512 (2 + 1) k) (Nat.mod_lt _ (by decide))]
      exact descView_zero _
    change walk 512 (descStore mem) (2 + 1) root k = some q at hq
    rw [walk, h0] at hq
    cases hq
  tables g l p hg hne := absurd (rootOnly_some hg).1 hne

end VmmPages
end LkHv
