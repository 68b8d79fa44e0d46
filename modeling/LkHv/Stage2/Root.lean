import LkHv.Lib.RadixTree
import LkHv.Stage2.System

/-!
# A new root (`init_st2_root`)

* `RootNew`        it translates nothing, and without it the VM still has no table;
* `RestUnmapped`   the root pages that are not cleared lead nowhere;
* `initSt2Root_iff`     when a root is new;
* `initSt2Root_fails`   not so for a root of two pages, the second as it was left.
-/

namespace LkHv
open Radix

/-- **A new root.** -/
structure RootNew (cfg : Config) (s : Hv) (archMem : ArchVmMem) : Prop where
  ok : (initSt2Root cfg s archMem).2.2 = 0 → ∀ ipa < cfg.ipaLimit,
    stage2Walk cfg (initSt2Root cfg s archMem).1.mem (initSt2Root cfg s archMem).2.1.vttbr ipa = none
  failed : (initSt2Root cfg s archMem).2.2 ≠ 0 → (initSt2Root cfg s archMem).2.1.st2Table = 0

/-- memory with the first root page cleared -/
def clearedMem (s : Hv) (pg : Nat) : PhysMem := fun a => if a / PAGE_SIZE = pg then 0 else s.mem a

/-- from the other root pages, as they are, no page of the configured size is reached -/
def RestUnmapped (cfg : Config) (s : Hv) (pg : Nat) : Prop :=
  ∀ k, PAGE_SIZE * k < cfg.ipaLimit → 512 ^ (cfg.top + 1) ≤ k →
    walk 512 (store (clearedMem s pg)) cfg.top (pg + k / 512 ^ (cfg.top + 1)) k = none

/-- the allocation of the root -/
def rootAlloc (cfg : Config) (s : Hv) : Pmm × Option Nat :=
  pmmAllocContiguous s.pmm (1 <<< cfg.rootOrder) (PAGE_SIZE_SHIFT + cfg.rootOrder)

section
variable {cfg : Config} {s : Hv} {archMem : ArchVmMem} {pg : Nat}

/-- a root of one page has no others -/
theorem restUnmapped_of_order (h : cfg.rootOrder = 0) (s : Hv) (pg : Nat) : RestUnmapped cfg s pg := by
  intro k hk hle
  have hspan := span_of_limit hk
  unfold Config.span at hspan
  rw [h, Nat.pow_zero, Nat.mul_one] at hspan
  omega

/-- the page numbers of the new VTTBR -/
theorem newVttbr_base (vmid : Nat) (h : pg < 2 ^ 36) :
    ((vmid <<< (64 - VTCR_EL2_VMID_BITS)) ||| PAGE_SIZE * pg) % 2 ^ 48 = PAGE_SIZE * pg := by
  have hlt : PAGE_SIZE * pg < 2 ^ 48 := by
    unfold PAGE_SIZE
    omega
  have hshift : 64 - VTCR_EL2_VMID_BITS = 48 := rfl
  rw [hshift, ← Nat.shiftLeft_add_eq_or_of_lt hlt, Nat.shiftLeft_eq, Nat.mul_comm, Nat.mul_add_mod,
    Nat.mod_eq_of_lt hlt]

/-- the three ways `init_st2_root` ends -/
theorem initSt2Root_cases (cfg : Config) (s : Hv) (archMem : ArchVmMem) :
    ((rootAlloc cfg s).2 = none ∧ (initSt2Root cfg s archMem).2.2 = ERR_NO_MEMORY ∧
        (initSt2Root cfg s archMem).2.1.st2Table = archMem.st2Table) ∨ ∃ pg, (rootAlloc cfg s).2 = some pg ∧
        ((cfg.kmapped (PAGE_SIZE * pg) = false ∧ (initSt2Root cfg s archMem).2.2 = ERR_NOT_FOUND ∧
            (initSt2Root cfg s archMem).2.1.st2Table = PAGE_SIZE * pg) ∨
          (cfg.kmapped (PAGE_SIZE * pg) = true ∧ (initSt2Root cfg s archMem).2.2 = 0 ∧
            (initSt2Root cfg s archMem).1.mem = clearedMem s pg ∧ (initSt2Root cfg s archMem).2.1.vttbr =
              ((s.baseVmid % 2 ^ 16) <<< (64 - VTCR_EL2_VMID_BITS)) ||| PAGE_SIZE * pg)) := by
  unfold initSt2Root rootAlloc
  rcases hr : pmmAllocContiguous s.pmm (1 <<< cfg.rootOrder) (PAGE_SIZE_SHIFT + cfg.rootOrder) with ⟨pmm, _ | pg⟩
  · exact .inl ⟨rfl, rfl, rfl⟩
  · refine .inr ⟨pg, rfl, ?_⟩
    dsimp only
    split
    · rename_i hk
      exact .inr ⟨hk, rfl, rfl, rfl⟩
    · rename_i hk
      exact .inl ⟨by simpa using hk, rfl, rfl⟩

/-- a page of the allocator is a page of memory, and not the first -/
theorem rootAlloc_lt (h : s.pmm.Wf) (hr : (rootAlloc cfg s).2 = some pg) : 0 < pg ∧ pg < 2 ^ 36 := by
  have hpow : 1 <<< cfg.rootOrder = 2 ^ cfg.rootOrder := Nat.one_shiftLeft _
  have hpos : 0 < 2 ^ cfg.rootOrder := Nat.pow_pos (by decide)
  rcases h.allocContiguous (1 <<< cfg.rootOrder) (PAGE_SIZE_SHIFT + cfg.rootOrder) (by omega) with
    ⟨pg', e, ht, -⟩ | ⟨e, -⟩
  · have hr : (pmmAllocContiguous s.pmm (1 <<< cfg.rootOrder) (PAGE_SIZE_SHIFT + cfg.rootOrder)).2 = some pg := hr
    rw [e] at hr
    cases hr
    exact h.ram_lt (ht.free pg (List.mem_range'_1.mpr ⟨le_refl _, by omega⟩)).1
  · have hr : (pmmAllocContiguous s.pmm (1 <<< cfg.rootOrder) (PAGE_SIZE_SHIFT + cfg.rootOrder)).2 = some pg := hr
    rw [e] at hr
    cases hr

/-- what the new root translates -/
theorem leafWalk_new (h : 0 < pg ∧ pg < 2 ^ 36) (vmid k : Nat) :
    leafWalk cfg (clearedMem s pg) ((vmid <<< (64 - VTCR_EL2_VMID_BITS)) ||| PAGE_SIZE * pg) k =
      walk 512 (store (clearedMem s pg)) cfg.top (pg + k / 512 ^ (cfg.top + 1)) k := by
  have hne : PAGE_SIZE * pg ≠ 0 := by
    unfold PAGE_SIZE
    omega
  rw [leafWalk, rootFrame, newVttbr_base vmid h.2, if_neg hne, cfg.hw_top,
    Nat.mul_div_cancel_left _ (by decide : 0 < PAGE_SIZE)]

/-- it translates nothing if and only if the pages that are not cleared lead nowhere -/
theorem leafWalk_new_iff (h : 0 < pg ∧ pg < 2 ^ 36) (vmid : Nat) :
    (∀ ipa < cfg.ipaLimit, stage2Walk cfg (clearedMem s pg)
      ((vmid <<< (64 - VTCR_EL2_VMID_BITS)) ||| PAGE_SIZE * pg) ipa = none) ↔ RestUnmapped cfg s pg := by
  constructor
  · intro hnone k hk hle
    have hk' := hnone (PAGE_SIZE * k) hk
    rw [stage2Walk, if_neg (by omega), Option.map_eq_none_iff, Nat.mul_div_cancel_left _ (by decide : 0 < PAGE_SIZE),
      leafWalk_new h] at hk'
    exact hk'
  · intro hrest ipa hipa
    rw [stage2Walk, if_neg (by omega), Option.map_eq_none_iff, leafWalk_new h]
    by_cases hle : 512 ^ (cfg.top + 1) ≤ ipa / PAGE_SIZE
    · refine hrest _ ?_ hle
      have hdiv := Nat.div_mul_le_self ipa PAGE_SIZE
      rw [Nat.mul_comm] at hdiv
      omega
    · -- the first root page is cleared
      rw [Nat.div_eq_of_lt (by omega : ipa / PAGE_SIZE < 512 ^ (cfg.top + 1)), Nat.add_zero]
      refine walk_empty (by decide) (fun m i hi => ?_) _ _
      show entryView m (if pteAddr pg i / PAGE_SIZE = pg then 0 else s.mem (pteAddr pg i)) = .empty
      rw [if_pos (pteAddr_page hi), entryView_zero]

end

/-- **A new root.**  For a VM without a table: the root is new if and only if, when its pages are there, the kernel has
them mapped and those that are not cleared lead nowhere. -/
theorem initSt2Root_iff {cfg : Config} {s : Hv} {archMem : ArchVmMem} (hpmm : s.pmm.Wf) (h0 : archMem.st2Table = 0) :
    RootNew cfg s archMem ↔ ∀ pg, (rootAlloc cfg s).2 = some pg →
      cfg.kmapped (PAGE_SIZE * pg) = true ∧ RestUnmapped cfg s pg := by
  rcases initSt2Root_cases cfg s archMem with ⟨hr, hret, htab⟩ | ⟨pg, hr, ⟨hk, hret, htab⟩ | ⟨hk, hret, hmem, hvttbr⟩⟩
  · constructor
    · intro _ pg hpg
      rw [hr] at hpg
      cases hpg
    · intro _
      refine ⟨fun hz => ?_, fun _ => htab.trans h0⟩
      rw [hret] at hz
      exact absurd hz (by decide)
  · have hpos := (rootAlloc_lt hpmm hr).1
    constructor
    · intro hnew
      have hz := hnew.failed (by rw [hret]; decide)
      rw [htab] at hz
      unfold PAGE_SIZE at hz
      omega
    · intro hcond
      rw [(hcond pg hr).1] at hk
      cases hk
  · have hlt := rootAlloc_lt hpmm hr
    constructor
    · intro hnew pg' hpg'
      rw [hr] at hpg'
      cases hpg'
      have hok := hnew.ok hret
      rw [hmem, hvttbr] at hok
      exact ⟨hk, (leafWalk_new_iff hlt _).mp hok⟩
    · intro hcond
      refine ⟨fun _ => ?_, fun hne => absurd hret hne⟩
      rw [hmem, hvttbr]
      exact (leafWalk_new_iff hlt _).mpr (hcond pg hr).2

/-- a root of one page -/
theorem initSt2Root_iff_one : RootNew (smallConfig ⟨20, 2, 0, 0⟩ (by decide)) (smallHv fun _ => 0x7D1)
    VmMem.boot.archMem :=
  (initSt2Root_iff smallPmm_wf rfl).mpr fun pg _ => ⟨rfl, restUnmapped_of_order rfl _ pg⟩

/-- **A root of two pages**, the second holding a descriptor from an earlier use. -/
theorem initSt2Root_fails : ¬ ∀ (cfg : Config) (s : Hv) (archMem : ArchVmMem), s.pmm.Wf → archMem.st2Table = 0 →
    RootNew cfg s archMem := by
  intro h
  have hnew := h (smallConfig ⟨24, 1, 1, 1⟩ (by decide)) (smallHv fun a => if a = 0x40001000 then 0x7D1 else 0)
    VmMem.boot.archMem smallPmm_wf rfl
  have hone := hnew.ok (by decide) (2 ^ 39) (by decide)
  revert hone
  decide

end LkHv
