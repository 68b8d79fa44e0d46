import LkHv.Kernel.Word
import LkHv.Stage2.Pte

/-!
# Stage-1 tables (`arch/arm64/mmu.c`)

The tables of the kernel and of the user address spaces, with 4K pages and 48-bit addresses.  A kernel address
is the physical address it stands for.  A table of level `n` has entries of `512 ^ n` pages, so that the
source's `index_shift` is `indexShift n`.  The TLB is not part of the model.

* `mmuFlagsToPteAttr`, `archMmuQuery`   the source's;
* `allocPageTable`, `freePageTable`, `getPageTable`, `pageTableIsClear`   the tables;
* `unmapPt`, `mapPt`   the recursions over the levels; `none` is a panic;
* `arm64MmuMap`, `arm64MmuUnmap`, `archMmuMap`, `archMmuUnmap`   what the kernel calls.
-/

namespace LkHv
namespace Stage1

/-- `MMU_KERNEL_SIZE_SHIFT` and `MMU_USER_SIZE_SHIFT` -/
def MMU_SIZE_SHIFT : Nat := 48

/-- the level of `MMU_KERNEL_TOP_SHIFT` and `MMU_USER_TOP_SHIFT`, which are 39 -/
def topLevel : Nat := 3

def indexShift (n : Nat) : Nat := PAGE_SIZE_SHIFT + n * (PAGE_SIZE_SHIFT - 3)

def MMU_PTE_DESCRIPTOR_BLOCK_MAX_SHIFT : Nat := 30
def MMU_PTE_DESCRIPTOR_INVALID : Nat := 0
def MMU_PTE_DESCRIPTOR_MASK : Nat := 3
def MMU_PTE_L012_DESCRIPTOR_BLOCK : Nat := 1
def MMU_PTE_L012_DESCRIPTOR_TABLE : Nat := 3
def MMU_PTE_L3_DESCRIPTOR_PAGE : Nat := 3
def MMU_PTE_OUTPUT_ADDR_MASK : Nat := 0xfffffffff <<< 12

def MMU_PTE_ATTR_UXN : Nat := 1 <<< 54
def MMU_PTE_ATTR_PXN : Nat := 1 <<< 53
def MMU_PTE_ATTR_AF : Nat := 1 <<< 10
def MMU_PTE_ATTR_SH_INNER_SHAREABLE : Nat := 3 <<< 8
def MMU_PTE_ATTR_AP_P_RW_U_NA : Nat := 0 <<< 6
def MMU_PTE_ATTR_AP_P_RW_U_RW : Nat := 1 <<< 6
def MMU_PTE_ATTR_AP_P_RO_U_NA : Nat := 2 <<< 6
def MMU_PTE_ATTR_AP_P_RO_U_RO : Nat := 3 <<< 6
def MMU_PTE_ATTR_AP_MASK : Nat := 3 <<< 6
def MMU_PTE_ATTR_NON_SECURE : Nat := 1 <<< 5
def MMU_PTE_ATTR_ATTR_INDEX_MASK : Nat := 7 <<< 2
def MMU_PTE_ATTR_STRONGLY_ORDERED : Nat := 0 <<< 2
def MMU_PTE_ATTR_DEVICE : Nat := 1 <<< 2
def MMU_PTE_ATTR_NORMAL_MEMORY : Nat := 2 <<< 2

def ARCH_MMU_FLAG_CACHED : Nat := 0
def ARCH_MMU_FLAG_UNCACHED : Nat := 1
def ARCH_MMU_FLAG_UNCACHED_DEVICE : Nat := 2
def ARCH_MMU_FLAG_CACHE_MASK : Nat := 3
def ARCH_MMU_FLAG_PERM_USER : Nat := 1 <<< 2
def ARCH_MMU_FLAG_PERM_RO : Nat := 1 <<< 3
def ARCH_MMU_FLAG_PERM_NO_EXECUTE : Nat := 1 <<< 4
def ARCH_MMU_FLAG_NS : Nat := 1 <<< 5

/-! ## attributes -/

/-- the cache bits, as the first `switch` of `mmu_flags_to_pte_attr` sets them -/
def cacheAttr (flags : Nat) : Option Nat :=
  let cache := flags &&& ARCH_MMU_FLAG_CACHE_MASK
  if cache = ARCH_MMU_FLAG_CACHED then some (MMU_PTE_ATTR_NORMAL_MEMORY ||| MMU_PTE_ATTR_SH_INNER_SHAREABLE)
  else if cache = ARCH_MMU_FLAG_UNCACHED then some MMU_PTE_ATTR_STRONGLY_ORDERED
  else if cache = ARCH_MMU_FLAG_UNCACHED_DEVICE then some MMU_PTE_ATTR_DEVICE
  else none

/-- the second `switch` -/
def permAttr (flags : Nat) : Nat :=
  let perm := flags &&& (ARCH_MMU_FLAG_PERM_USER ||| ARCH_MMU_FLAG_PERM_RO)
  if perm = 0 then MMU_PTE_ATTR_AP_P_RW_U_NA
  else if perm = ARCH_MMU_FLAG_PERM_RO then MMU_PTE_ATTR_AP_P_RO_U_NA
  else if perm = ARCH_MMU_FLAG_PERM_USER then MMU_PTE_ATTR_AP_P_RW_U_RW
  else MMU_PTE_ATTR_AP_P_RO_U_RO

/-- `mmu_flags_to_pte_attr`; the error code comes back as a `pte_t` -/
def mmuFlagsToPteAttr (flags : Nat) : Nat :=
  match cacheAttr flags with
  | none => (2 ^ 64 + ERR_INVALID_ARGS).toNat
  | some cache =>
    MMU_PTE_ATTR_AF ||| cache ||| permAttr flags
      ||| (if flags &&& ARCH_MMU_FLAG_PERM_NO_EXECUTE ≠ 0 then MMU_PTE_ATTR_UXN ||| MMU_PTE_ATTR_PXN else 0)
      ||| (if flags &&& ARCH_MMU_FLAG_NS ≠ 0 then MMU_PTE_ATTR_NON_SECURE else 0)

/-- the flags that `arch_mmu_query` makes of a descriptor -/
def queryFlags (pte : Nat) : Option Nat :=
  let index := pte &&& MMU_PTE_ATTR_ATTR_INDEX_MASK
  let ap := pte &&& MMU_PTE_ATTR_AP_MASK
  let cache :=
    if index = MMU_PTE_ATTR_STRONGLY_ORDERED then some ARCH_MMU_FLAG_UNCACHED
    else if index = MMU_PTE_ATTR_DEVICE then some ARCH_MMU_FLAG_UNCACHED_DEVICE
    else if index = MMU_PTE_ATTR_NORMAL_MEMORY then some 0
    else none
  cache.map fun cache =>
    (if pte &&& MMU_PTE_ATTR_NON_SECURE ≠ 0 then ARCH_MMU_FLAG_NS else 0) ||| cache
      ||| (if ap = MMU_PTE_ATTR_AP_P_RW_U_NA then 0
        else if ap = MMU_PTE_ATTR_AP_P_RW_U_RW then ARCH_MMU_FLAG_PERM_USER
        else if ap = MMU_PTE_ATTR_AP_P_RO_U_NA then ARCH_MMU_FLAG_PERM_RO
        else ARCH_MMU_FLAG_PERM_USER ||| ARCH_MMU_FLAG_PERM_RO)
      ||| (if pte &&& MMU_PTE_ATTR_UXN ≠ 0 ∧ pte &&& MMU_PTE_ATTR_PXN ≠ 0 then ARCH_MMU_FLAG_PERM_NO_EXECUTE
        else 0)

/-! ## `arch_mmu_query` -/

/-- `arch_aspace_t` -/
structure ArchAspace where
  ttVirt : Nat
  /-- `ARCH_ASPACE_FLAG_KERNEL` -/
  kernel : Bool
  base : Nat
  size : Nat

def isValidVaddr (aspace : ArchAspace) (vaddr : Nat) : Bool :=
  decide (aspace.base ≤ vaddr ∧ vaddr ≤ last64 aspace.base aspace.size)

/-- the type of a descriptor that ends the walk at level `n` -/
def leafDescriptor (n : Nat) : Nat := if n = 0 then MMU_PTE_L3_DESCRIPTOR_PAGE else MMU_PTE_L012_DESCRIPTOR_BLOCK

/-- what a walk gives back: the leaf descriptor and what is left of the address, or an error code -/
abbrev QueryResult := Except Int (Nat × Nat)

/-- the loop of `arch_mmu_query` from a table of level `n` -/
def queryLoop (mem : PhysMem) : Nat → Nat → Nat → Option QueryResult
  | n, pageTable, vaddrRem =>
    let index := vaddrRem >>> indexShift n
    let vaddrRem := vaddrRem - index <<< indexShift n
    let pte := mem (pageTable + 8 * index)
    let descriptorType := pte &&& MMU_PTE_DESCRIPTOR_MASK
    if descriptorType = MMU_PTE_DESCRIPTOR_INVALID then some (.error ERR_NOT_FOUND)
    else if descriptorType = leafDescriptor n then some (.ok (pte, vaddrRem))
    else
      match n with
      | 0 => none
      | m + 1 =>
        if descriptorType ≠ MMU_PTE_L012_DESCRIPTOR_TABLE then none
        else queryLoop mem m (pte &&& MMU_PTE_OUTPUT_ADDR_MASK) vaddrRem

/-- `arch_mmu_query`; for a user address space an index past the table is an `ASSERT` -/
def archMmuQuery (mem : PhysMem) (aspace : ArchAspace) (vaddr : Nat) : Option (Except Int (Nat × Nat)) :=
  if ¬ isValidVaddr aspace vaddr then some (.error ERR_OUT_OF_RANGE)
  else if ¬ aspace.kernel ∧ ¬ vaddr >>> indexShift topLevel < 512 then none
  else
    match queryLoop mem topLevel aspace.ttVirt vaddr with
    | none => none
    | some (.error e) => some (.error e)
    | some (.ok (pte, vaddrRem)) =>
      (queryFlags pte).map fun flags => .ok ((pte &&& MMU_PTE_OUTPUT_ADDR_MASK) + vaddrRem, flags)

/-! ## tables -/

structure Mmu where
  mem : PhysMem
  pmm : Pmm

/-- a store of a descriptor -/
def Mmu.write (s : Mmu) (addr val : Nat) : Mmu := { s with mem := fun a => if a = addr then val else s.mem a }

/-- `memset(page, 0, PAGE_SIZE)` -/
def Mmu.clearPage (s : Mmu) (f : Nat) : Mmu := { s with mem := fun a => if a / PAGE_SIZE = f then 0 else s.mem a }

/-- `alloc_page_table`, of tables that are pages -/
def allocPageTable (s : Mmu) : Mmu × Option Nat :=
  let r := pmmAllocPage s.pmm
  ({ s with pmm := r.1 }, r.2.map fun pg => PAGE_SIZE * pg)

/-- `free_page_table`; `none` is the panic on a page of no arena -/
def freePageTable (s : Mmu) (paddr : Nat) : Option Mmu :=
  if ∃ a ∈ s.pmm.arenaList, a.Has (paddr / PAGE_SIZE) then
    some { s with pmm := pmmFree s.pmm [paddr / PAGE_SIZE] }
  else none

/-- `arm64_mmu_get_page_table` -/
def getPageTable (s : Mmu) (index pageTable : Nat) : Option (Mmu × Option Nat) :=
  let pte := s.mem (pageTable + 8 * index)
  let descriptorType := pte &&& MMU_PTE_DESCRIPTOR_MASK
  if descriptorType = MMU_PTE_DESCRIPTOR_INVALID then
    let r := allocPageTable s
    match r.2 with
    | none => some (r.1, none)
    | some paddr =>
      some ((r.1.clearPage (paddr / PAGE_SIZE)).write (pageTable + 8 * index)
        (paddr ||| MMU_PTE_L012_DESCRIPTOR_TABLE), some paddr)
  else if descriptorType = MMU_PTE_L012_DESCRIPTOR_TABLE then some (s, some (pte &&& MMU_PTE_OUTPUT_ADDR_MASK))
  else if descriptorType = MMU_PTE_L012_DESCRIPTOR_BLOCK then some (s, none)
  else none

def pageTableIsClear (s : Mmu) (pageTable : Nat) : Bool :=
  (List.range (1 <<< (PAGE_SIZE_SHIFT - 3))).all fun i => s.mem (pageTable + 8 * i) == MMU_PTE_DESCRIPTOR_INVALID

/-! ## `arm64_mmu_unmap_pt` -/

/-- `vaddr_rem` -/
def vaddrRem (n vaddrRel : Nat) : Nat := vaddrRel &&& (1 <<< indexShift n - 1)

def chunkSize (n vaddrRel size : Nat) : Nat := min size (1 <<< indexShift n - vaddrRem n vaddrRel)

/-- one round of the loop of `arm64_mmu_unmap_pt`; `sub` is the function for the tables below -/
def unmapChunk (sub : Mmu → Nat → Nat → Nat → Option Mmu) (n pageTable : Nat) (s : Mmu)
    (vaddrRel chunk : Nat) : Option Mmu :=
  let index := vaddrRel >>> indexShift n
  let pte := s.mem (pageTable + 8 * index)
  if indexShift n > PAGE_SIZE_SHIFT ∧ pte &&& MMU_PTE_DESCRIPTOR_MASK = MMU_PTE_L012_DESCRIPTOR_TABLE then
    let nextPageTable := pte &&& MMU_PTE_OUTPUT_ADDR_MASK
    (sub s (vaddrRem n vaddrRel) chunk nextPageTable).bind fun s =>
      if chunk = 1 <<< indexShift n ∨ pageTableIsClear s nextPageTable then
        freePageTable (s.write (pageTable + 8 * index) MMU_PTE_DESCRIPTOR_INVALID) nextPageTable
      else some s
  else if pte ≠ 0 then some (s.write (pageTable + 8 * index) MMU_PTE_DESCRIPTOR_INVALID)
  else some s

/-- the loop; a round goes on to the next entry, so that the bound on the rounds is never reached -/
def unmapLoop (sub : Mmu → Nat → Nat → Nat → Option Mmu) (n pageTable : Nat) :
    Nat → Mmu → Nat → Nat → Option Mmu
  | 0, s, _, _ => some s
  | rounds + 1, s, vaddrRel, size =>
    if size = 0 then some s
    else
      let chunk := chunkSize n vaddrRel size
      (unmapChunk sub n pageTable s vaddrRel chunk).bind fun s =>
        unmapLoop sub n pageTable rounds s (vaddrRel + chunk) (size - chunk)

/-- `arm64_mmu_unmap_pt` of `size` bytes from `vaddr_rel` on in a table of level `n` -/
def unmapPt : Nat → Mmu → Nat → Nat → Nat → Option Mmu
  | 0, s, vaddrRel, size, pageTable => unmapLoop (fun s _ _ _ => some s) 0 pageTable 512 s vaddrRel size
  | n + 1, s, vaddrRel, size, pageTable => unmapLoop (unmapPt n) (n + 1) pageTable 512 s vaddrRel size

/-! ## `arm64_mmu_map_pt` -/

/-- one round of the loop of `arm64_mmu_map_pt`, and whether the loop goes on -/
def mapChunk (sub : Mmu → Nat → Nat → Nat → Nat → Option (Mmu × Int)) (attrs n pageTable : Nat) (s : Mmu)
    (vaddrRel paddr chunk : Nat) : Option (Mmu × Bool) :=
  let index := vaddrRel >>> indexShift n
  if (vaddrRel ||| paddr) &&& (1 <<< indexShift n - 1) ≠ 0 ∨ chunk ≠ 1 <<< indexShift n ∨
      indexShift n > MMU_PTE_DESCRIPTOR_BLOCK_MAX_SHIFT then
    (getPageTable s index pageTable).bind fun r =>
      match r.2 with
      | none => some (r.1, false)
      | some nextPageTable =>
        (sub r.1 (vaddrRem n vaddrRel) paddr chunk nextPageTable).map fun r => (r.1, decide (r.2 = 0))
  else if s.mem (pageTable + 8 * index) ≠ 0 then some (s, false)
  else some (s.write (pageTable + 8 * index) (paddr ||| attrs ||| leafDescriptor n), true)

/-- the loop, and what is left of `size` at its end -/
def mapLoop (sub : Mmu → Nat → Nat → Nat → Nat → Option (Mmu × Int)) (attrs n pageTable : Nat) :
    Nat → Mmu → Nat → Nat → Nat → Option (Mmu × Nat)
  | 0, s, _, _, size => some (s, size)
  | rounds + 1, s, vaddrRel, paddr, size =>
    if size = 0 then some (s, size)
    else
      let chunk := chunkSize n vaddrRel size
      (mapChunk sub attrs n pageTable s vaddrRel paddr chunk).bind fun r =>
        if r.2 then
          mapLoop sub attrs n pageTable rounds r.1 (vaddrRel + chunk) (add64 paddr chunk) (size - chunk)
        else some (r.1, size)

/-- the body of `arm64_mmu_map_pt` for a table of level `n` -/
def mapBody (sub : Mmu → Nat → Nat → Nat → Nat → Option (Mmu × Int)) (attrs n : Nat) (s : Mmu)
    (vaddrRel paddr size pageTable : Nat) : Option (Mmu × Int) :=
  if (vaddrRel ||| paddr ||| size) &&& (1 <<< PAGE_SIZE_SHIFT - 1) ≠ 0 then some (s, ERR_INVALID_ARGS)
  else
    (mapLoop sub attrs n pageTable 512 s vaddrRel paddr size).bind fun r =>
      if r.2 = 0 then some (r.1, 0)
      else (unmapPt n r.1 vaddrRel (size - r.2) pageTable).map fun s => (s, ERR_GENERIC)

/-- `arm64_mmu_map_pt`; no round of a table of level 0 looks for a table below -/
def mapPt (attrs : Nat) : Nat → Mmu → Nat → Nat → Nat → Nat → Option (Mmu × Int)
  | 0 => mapBody (fun s _ _ _ _ => some (s, ERR_INVALID_ARGS)) attrs 0
  | n + 1 => mapBody (mapPt attrs n) attrs (n + 1)

/-! ## what the kernel calls -/

/-- the range is past the top of the address space, whose base is 0 -/
def outOfRange (vaddr size : Nat) : Bool :=
  decide (vaddr > sub64 (2 ^ MMU_SIZE_SHIFT) size ∨ size > 2 ^ MMU_SIZE_SHIFT)

/-- `arm64_mmu_map` -/
def arm64MmuMap (s : Mmu) (vaddr paddr size attrs topPageTable : Nat) : Option (Mmu × Int) :=
  if outOfRange vaddr size then some (s, ERR_INVALID_ARGS)
  else if topPageTable = 0 then some (s, ERR_INVALID_ARGS)
  else mapPt attrs topLevel s vaddr paddr size topPageTable

/-- `arm64_mmu_unmap` -/
def arm64MmuUnmap (s : Mmu) (vaddr size topPageTable : Nat) : Option (Mmu × Int) :=
  if outOfRange vaddr size then some (s, ERR_INVALID_ARGS)
  else if topPageTable = 0 then some (s, ERR_INVALID_ARGS)
  else (unmapPt topLevel s vaddr size topPageTable).map fun s => (s, 0)

def isPageAligned (x : Nat) : Bool := x % PAGE_SIZE == 0

/-- `arch_mmu_map` of `count` pages -/
def archMmuMap (s : Mmu) (aspace : ArchAspace) (vaddr paddr count flags : Nat) : Option (Mmu × Int) :=
  if ¬ isValidVaddr aspace vaddr then some (s, ERR_OUT_OF_RANGE)
  else if ¬ isPageAligned vaddr ∨ ¬ isPageAligned paddr then some (s, ERR_INVALID_ARGS)
  else if count = 0 then some (s, 0)
  else arm64MmuMap s vaddr paddr (count * PAGE_SIZE) (mmuFlagsToPteAttr flags) aspace.ttVirt

/-- `arch_mmu_unmap` of `count` pages -/
def archMmuUnmap (s : Mmu) (aspace : ArchAspace) (vaddr count : Nat) : Option (Mmu × Int) :=
  if ¬ isValidVaddr aspace vaddr then some (s, ERR_OUT_OF_RANGE)
  else if ¬ isPageAligned vaddr then some (s, ERR_INVALID_ARGS)
  else arm64MmuUnmap s vaddr (count * PAGE_SIZE) aspace.ttVirt

end Stage1
end LkHv
