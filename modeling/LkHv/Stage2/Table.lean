import LkHv.Stage2.Pte

/-!
# Stage-2 tables (`hv_arch_mem.c`)

`Hv` is what the functions act on: the page allocator, physical memory, `base_vmid` and the CPU.  A kernel
address is the physical address it stands for.

* `initSt2Root`, `pteGet`, `memPteSet`, `archMemMap`, `archMemUnmap`, `ipaToPa`   the source's;
* `archTlbFlush`, `memUnlock`   the deferred invalidation.

The TLB is the set of stage-2 translations it may hold: every write and every invalidation is followed by
`fill`, which adds all that the walkers can find then.  `bbm` is a monitor: it stays true as long as every
replacement of a valid entry found the translations of the old entry gone.
-/

namespace LkHv
open Radix

/-- `struct arch_vm_mem` -/
structure ArchVmMem where
  vttbr : Nat
  st2Table : Nat
  /-- the root pages -/
  ln : List Nat
  st2RootKva : Option Nat
  vmid : Nat

/-- `struct phy_mem_seg` -/
structure PhyMemSeg where
  pgs : List Nat
  pa : Nat
  ipa : Nat

/-- `struct vm_mem` -/
structure VmMem where
  archMem : ArchVmMem
  segNum : Nat
  memSeg : Option (List PhyMemSeg)
  needFlush : Bool

structure Hv where
  pmm : Pmm
  mem : PhysMem
  /-- `base_vmid` -/
  baseVmid : Nat
  /-- `vttbr_el2` of the CPU that runs the functions -/
  vttbrEl2 : Nat
  /-- the values that may be loaded on the other CPUs -/
  others : List Nat
  /-- the translations the TLBs may hold: VMID, page, output page -/
  tlb : Nat → Nat → Nat → Prop
  bbm : Prop

/-! ## the walkers and the TLB -/

/-- the VMID the hardware takes from a `VTTBR_EL2` value -/
def hwVmid (cfg : Config) (vttbr : Nat) : Nat := vttbr / 2 ^ 48 % 2 ^ cfg.vmidBits

/-- a translation some CPU can find in the tables now -/
def Hv.Walkable (cfg : Config) (s : Hv) (vmid k p : Nat) : Prop :=
  ∃ w ∈ s.vttbrEl2 :: s.others,
    hwVmid cfg w = vmid ∧ PAGE_SIZE * k < cfg.ipaLimit ∧ pageWalk cfg s.mem w k = some p

def Hv.fill (cfg : Config) (s : Hv) : Hv := { s with tlb := fun vmid k p => s.tlb vmid k p ∨ s.Walkable cfg vmid k p }

/-- a store of a doubleword -/
def Hv.write (cfg : Config) (s : Hv) (addr val : Nat) : Hv :=
  Hv.fill cfg { s with mem := fun a => if a = addr then val else s.mem a }

/-- `memset(page, 0, PAGE_SIZE)` -/
def Hv.clearPage (cfg : Config) (s : Hv) (f : Nat) : Hv :=
  Hv.fill cfg { s with mem := fun a => if a / PAGE_SIZE = f then 0 else s.mem a }

def Hv.setVttbr (cfg : Config) (s : Hv) (vttbr : Nat) : Hv := Hv.fill cfg { s with vttbrEl2 := vttbr }

/-- `tlbi vmalls12e1is`: everything of the loaded VMID -/
def Hv.tlbiVmalls12e1is (cfg : Config) (s : Hv) : Hv :=
  Hv.fill cfg { s with tlb := fun vmid k p => s.tlb vmid k p ∧ vmid ≠ hwVmid cfg s.vttbrEl2 }

/-- `tlbi ipas2e1is`: the stage-2 translation of the page in bits `[35:0]` of the operand, for the loaded
VMID -/
def Hv.tlbiIpas2e1is (cfg : Config) (s : Hv) (xt : Nat) : Hv :=
  Hv.fill cfg
    { s with
      tlb := fun vmid k p => s.tlb vmid k p ∧ ¬ (vmid = hwVmid cfg s.vttbrEl2 ∧ k = xt % 2 ^ 36) }

/-- `tlb_flush` -/
def tlbFlush (cfg : Config) (s : Hv) : Hv := s.tlbiVmalls12e1is cfg

/-- `tlb_flush_ipa`; its `tlbi vmalle1is` is about stage 1 -/
def tlbFlushIpa (cfg : Config) (s : Hv) (ipa : Nat) : Hv := s.tlbiIpas2e1is cfg ipa

/-- `arch_tlb_flush` -/
def archTlbFlush (cfg : Config) (s : Hv) (mem : VmMem) : Hv :=
  let vttbr := s.vttbrEl2
  let s := if vttbr ≠ mem.archMem.vttbr then s.setVttbr cfg mem.archMem.vttbr else s
  let s := tlbFlush cfg s
  if vttbr ≠ mem.archMem.vttbr then s.setVttbr cfg vttbr else s

/-- `mem_unlock` -/
def memUnlock (cfg : Config) (s : Hv) (mem : VmMem) : Hv × VmMem :=
  if mem.needFlush then (archTlbFlush cfg s mem, { mem with needFlush := false }) else (s, mem)

/-! ## `pte_get` -/

/-- `init_st2_root`; `get_vmid` is an `atomic_add` on an `int` cut to 16 bits -/
def initSt2Root (cfg : Config) (s : Hv) (archMem : ArchVmMem) : Hv × ArchVmMem × Int :=
  let r := pmmAllocContiguous s.pmm (1 <<< cfg.rootOrder) (PAGE_SIZE_SHIFT + cfg.rootOrder)
  let s := { s with pmm := r.1 }
  match r.2 with
  | none => (s, { archMem with ln := [] }, ERR_NO_MEMORY)
  | some pg =>
    let ln := List.range' pg (1 <<< cfg.rootOrder)
    let st2Table := PAGE_SIZE * pg
    if cfg.kmapped st2Table then
      let vmid := s.baseVmid % 2 ^ 16
      let s := { s with baseVmid := (s.baseVmid + 1) % 2 ^ 32 }
      -- only the first of the root pages is cleared
      (s.clearPage cfg pg,
        { vttbr := (vmid <<< (64 - VTCR_EL2_VMID_BITS)) ||| st2Table
          st2Table, ln, st2RootKva := some st2Table, vmid }, 0)
    else
      ({ s with pmm := pmmFree s.pmm ln },
        { archMem with st2Table, ln := [], st2RootKva := none }, ERR_NOT_FOUND)

/-- the loop of `pte_get` from level `i` and the table at `st2Kva`, with `n` levels to go -/
def pteWalk (cfg : Config) (ipa : Nat) : Nat → Nat → Nat → Hv → Hv × Option Nat
  | 0, i, st2Kva, s => (s, some (st2Kva + 8 * pteIndex cfg ipa i))
  | n + 1, i, st2Kva, s =>
    let pte := st2Kva + 8 * pteIndex cfg ipa i
    if s.mem pte = 0 ∨ ¬ isPteValid (s.mem pte) then
      let r := pmmAllocPage s.pmm
      let s := { s with pmm := r.1 }
      match r.2 with
      | none => (s, none)
      | some pg =>
        let phaddr := PAGE_SIZE * pg
        let s := s.clearPage cfg pg
        let s := s.write cfg pte (MMU_PTE_TABLE ||| phaddr)
        pteWalk cfg ipa n (i + 1) phaddr s
    else if i = 3 ∨ isPteBlock (s.mem pte) then (s, none)
    else pteWalk cfg ipa n (i + 1) (pteTableAddress (s.mem pte)) s

/-- `pte_get` once there is a root; the source reads through `st2_root_kva` unchecked -/
def pteGetRoot (cfg : Config) (s : Hv) (archMem : ArchVmMem) (ipa level : Nat) :
    Hv × ArchVmMem × Option Nat :=
  match archMem.st2RootKva with
  | none => (s, archMem, none)
  | some kva =>
    let r := pteWalk cfg ipa (level - cfg.rootLevel) cfg.rootLevel kva s
    (r.1, archMem, r.2)

/-- `pte_get`: the address of the entry of `ipa` at `level`, with the tables above it made -/
def pteGet (cfg : Config) (s : Hv) (archMem : ArchVmMem) (ipa level : Nat) :
    Hv × ArchVmMem × Option Nat :=
  if archMem.st2Table = 0 then
    let r := initSt2Root cfg s archMem
    if r.2.2 ≠ 0 then (r.1, r.2.1, none) else pteGetRoot cfg r.1 r.2.1 ipa level
  else pteGetRoot cfg s archMem ipa level

/-! ## `mem_pte_set` -/

/-- `ST2_PERM_NOT` -/
def st2PermNot (pte : Nat) : Nat := pte &&& (2 ^ 64 - 1 - ST2_PERM_MASK)

/-- no translation that went through the entry at `dst` of the memory `mem` is left in the TLBs -/
def Hv.Gone (cfg : Config) (s : Hv) (mem : PhysMem) (vttbr : Nat) : Prop :=
  ∀ k p, pageWalk cfg mem vttbr k = some p → pageWalk cfg s.mem vttbr k ≠ some p →
    ¬ s.tlb (hwVmid cfg vttbr) k p

/-- `mem_pte_set` -/
def memPteSet (cfg : Config) (s : Hv) (mem : VmMem) (dst val ipa : Nat) : Hv × VmMem :=
  if ¬ isPteValid (s.mem dst) then (s.write cfg dst val, mem)
  else
    let origDst := s.mem dst
    let s1 := s.write cfg dst 0
    if ¬ isPteValid val then (s1, { mem with needFlush := true })
    else if st2PermNot origDst ≠ st2PermNot val then
      let s2 := tlbFlushIpa cfg s1 ipa
      (Hv.write cfg { s2 with bbm := s.bbm ∧ s2.Gone cfg s.mem mem.archMem.vttbr } dst val, mem)
    else (s1.write cfg dst val, { mem with needFlush := true })

/-! ## `arch_mem_map` and `arch_mem_unmap` -/

/-- `x & ~MMU_OA_RANGE_MASK`, for a 64-bit `x` -/
def oaOut (x : Nat) : Nat := x >>> 48

/-- `IS_PAGE_ALIGN`, whose mask is the logical negation of `PAGE_SIZE - 1` -/
def isPageAlign (x : Nat) : Bool := x &&& (if PAGE_SIZE - 1 = 0 then 1 else 0) == 0

/-- `pte_get` and `mem_pte_set`, as every round of the loops has them -/
def setEntry (cfg : Config) (s : Hv) (vmMem : VmMem) (ipa level val : Nat) : Hv × VmMem × Bool :=
  let r := pteGet cfg s vmMem.archMem ipa level
  let vmMem := { vmMem with archMem := r.2.1 }
  match r.2.2 with
  | none => (r.1, vmMem, false)
  | some dst =>
    let r := memPteSet cfg r.1 vmMem dst val ipa
    (r.1, r.2, true)

/-- the test for a 2M block in `arch_mem_map` -/
def blockStep (pa ipa len : Nat) : Bool :=
  pa &&& VM_MEM_BLOCK_MASK == 0 && ipa &&& VM_MEM_BLOCK_MASK == 0 && len &&& VM_MEM_BLOCK_MASK == 0

/-- the loop of `arch_mem_map` and `arch_mem_unmap` when `off` bytes are done; the bound `n` on the rounds is
never reached, since a round does `PAGE_SIZE` bytes or more -/
def editLoop (cfg : Config) (err : Int) (block : Nat → Bool) (blockVal pageVal : Nat → Nat)
    (ipa len : Nat) : Nat → Hv → VmMem → Nat → Hv × VmMem × Int
  | 0, s, vmMem, _ => (s, vmMem, 0)
  | n + 1, s, vmMem, off =>
    if len ≤ off then (s, vmMem, 0)
    else if block off then
      let r := setEntry cfg s vmMem (ipa + off) 2 (blockVal off)
      if r.2.2 then
        editLoop cfg err block blockVal pageVal ipa len n r.1 r.2.1 (off + VM_MEM_BLOCK_2M)
      else (r.1, r.2.1, err)
    else
      let r := setEntry cfg s vmMem (ipa + off) 3 (pageVal off)
      if r.2.2 then editLoop cfg err block blockVal pageVal ipa len n r.1 r.2.1 (off + PAGE_SIZE)
      else (r.1, r.2.1, err)

/-- the loop of `arch_mem_map`: `pa`, `ipa` and what is left of `len` move together -/
def archMemMapLoop (cfg : Config) (s : Hv) (vmMem : VmMem) (pa ipa len : Nat) : Hv × VmMem × Int :=
  editLoop cfg ERR_NO_MEMORY (fun off => blockStep (pa + off) (ipa + off) (len - off))
    (fun off => MMU_PTE_BLOCK ||| (pa + off)) (fun off => MMU_PTE_TABLE ||| (pa + off)) ipa len
    (len / PAGE_SIZE + 1) s vmMem 0

/-- `arch_mem_map`; `flags` is not used -/
def archMemMap (cfg : Config) (s : Hv) (vmMem : VmMem) (pa ipa : Nat) (len : Int) :
    Hv × VmMem × Int :=
  if oaOut pa ≠ 0 ∨ oaOut ipa ≠ 0 then (s, vmMem, ERR_INVALID_ARGS)
  else if ¬ isPageAlign len.toNat ∨ len < PAGE_SIZE ∨ ¬ isPageAlign pa ∨ ¬ isPageAlign ipa then
    (s, vmMem, ERR_INVALID_ARGS)
  else archMemMapLoop cfg s vmMem pa ipa len.toNat

/-- the loop of `arch_mem_unmap`: the test is on `ipa` and `len` alone, and the descriptors are zero -/
def archMemUnmapLoop (cfg : Config) (s : Hv) (vmMem : VmMem) (ipa len : Nat) : Hv × VmMem × Int :=
  editLoop cfg ERR_NOT_FOUND (fun off => blockStep (ipa + off) (ipa + off) (len - off)) (fun _ => 0)
    (fun _ => 0) ipa len (len / PAGE_SIZE + 1) s vmMem 0

/-- `arch_mem_unmap` -/
def archMemUnmap (cfg : Config) (s : Hv) (vmMem : VmMem) (ipa : Nat) (len : Int) :
    Hv × VmMem × Int :=
  if oaOut ipa ≠ 0 then (s, vmMem, ERR_INVALID_ARGS)
  else if ¬ isPageAlign len.toNat ∨ len < PAGE_SIZE ∨ ¬ isPageAlign ipa then
    (s, vmMem, ERR_INVALID_ARGS)
  else archMemUnmapLoop cfg s vmMem ipa len.toNat

/-! ## `ipa_to_pa` -/

/-- the offset of an address in what an entry of `level` maps -/
def blockOffset (ipa level : Nat) : Nat := ipa &&& ((1 <<< ((3 - level) * VM_MEM_PTE_SHIFT + PAGE_SIZE_SHIFT)) - 1)

/-- the loop of `ipa_to_pa` and its exit, where `pte` still is the entry of the last round -/
def ipaToPaLoop (cfg : Config) (mem : PhysMem) (ipa : Nat) : Nat → Nat → Nat → Option Nat → Nat
  | 0, level, _, pte =>
    match pte with
    | none => 0
    | some pte =>
      if ¬ isPteValid pte ∨ isPteBlock pte then 0
      else pteBlockAddress pte level + blockOffset ipa level
  | n + 1, level, st2Kva, _ =>
    let pte := mem (st2Kva + 8 * pteIndex cfg ipa level)
    if pte = 0 ∨ ¬ isPteValid pte then 0
    else if isPteBlock pte then pteBlockAddress pte level + blockOffset ipa level
    else ipaToPaLoop cfg mem ipa n (level + 1) (pteTableAddress pte) (some pte)

/-- `ipa_to_pa`; the error code comes back as a `paddr_t` -/
def ipaToPa (cfg : Config) (mem : PhysMem) (archMem : ArchVmMem) (ipa : Nat) : Nat :=
  if oaOut ipa ≠ 0 then (2 ^ 64 + ERR_INVALID_ARGS).toNat
  else
    match archMem.st2RootKva with
    | none => 0
    | some kva => ipaToPaLoop cfg mem ipa (3 - cfg.rootLevel) cfg.rootLevel kva none

end LkHv
