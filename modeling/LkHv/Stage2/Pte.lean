import LkHv.Lib.Radix
import LkHv.Kernel.Err
import LkHv.Kernel.Pmm
import Mathlib.Data.Nat.Bitwise

/-!
# Stage-2 descriptors and the reference walk (`hv_arch_mem.c`, `hv_arch_mem.h`)

The configuration is the row of `ipa_info` that `arch_mem_init` takes.  Table levels are counted from
the leaves: the architecture's level `n` is level `3 - n` here, so that a table of level `l` has entries
of `512 ^ l` pages.

* `pteIndex`, `isPteValid`, `isPteBlock`, `pteBlockAddress`, `pteTableAddress`   the source's;
* `entryView`    what a descriptor means to the walker;
* `stage2Walk`   the reference (architectural) walk of an address from a `VTTBR_EL2` value;
* `pageWalk`     the same, from page numbers to page numbers;
* `pteIndex_root`, `pteIndex_below`   the indices of the source are the digits of the page number.
-/

namespace LkHv
open Radix

def VM_MEM_BLOCK_SHIFT : Nat := 21
def VM_MEM_BLOCK_1G : Nat := 2 ^ 30
def VM_MEM_BLOCK_2M : Nat := 2 ^ 21
def VM_MEM_BLOCK_MASK : Nat := 2 ^ 21 - 1
def VM_MEM_PTE_SHIFT : Nat := 9
def MMU_OA_RANGE_MASK : Nat := 2 ^ 48 - 1
def VTCR_EL2_VMID_BITS : Nat := 16

/-- `L012_DESCRIPTOR_BLOCK`, `ATTR_AF`, `SH_INNER_SHAREABLE`, `S2AP_RW`, `S2MA_MEM_INC` -/
def MMU_PTE_BLOCK : Nat := 0x7D1
/-- the same with `L012_DESCRIPTOR_TABLE` -/
def MMU_PTE_TABLE : Nat := 0x7D3
def ST2_PERM_MASK : Nat := 0x00400000000000C0

/-! ## configuration -/

/-- a row of `ipa_info` -/
structure IpaInfo where
  t0sz : Nat
  sl0 : Nat
  rootOrder : Nat
  rootLevel : Nat
  deriving DecidableEq

def ipaInfo : List IpaInfo :=
  [⟨32, 1, 0, 1⟩, ⟨28, 1, 0, 1⟩, ⟨24, 1, 1, 1⟩, ⟨22, 1, 3, 1⟩, ⟨20, 2, 0, 0⟩, ⟨16, 2, 0, 0⟩]

/-- what `arch_mem_init` sets up, and the physical addresses `paddr_to_kvaddr` knows -/
structure Config where
  info : IpaInfo
  vmidBits : Nat
  kmapped : Nat → Bool
  listed : info ∈ ipaInfo
  vmid : vmidBits = 8 ∨ vmidBits = 16

/-- `none`: the index runs past `ipa_info` -/
def archMemInit (mmfr0 mmfr1 : Nat) (kmapped : Nat → Bool) : Option Config :=
  match h : ipaInfo[mmfr0 &&& 0xf]? with
  | some info =>
    some { info, kmapped
           vmidBits := if (mmfr1 >>> 4) &&& 0xf = 2 then 16 else 8
           listed := List.mem_of_getElem? h
           vmid := by split <;> simp }
  | none => none

namespace Config

abbrev rootOrder (cfg : Config) : Nat := cfg.info.rootOrder
abbrev rootLevel (cfg : Config) : Nat := cfg.info.rootLevel

/-- the level of the root, counted from the leaves -/
def top (cfg : Config) : Nat := 3 - cfg.rootLevel

/-- the pages the root covers -/
def span (cfg : Config) : Nat := 512 ^ (cfg.top + 1) * 2 ^ cfg.rootOrder

/-- the configured IPA size, as an address bound -/
def ipaLimit (cfg : Config) : Nat := 2 ^ (64 - cfg.info.t0sz)

theorem cases (cfg : Config) : cfg.info = ⟨32, 1, 0, 1⟩ ∨ cfg.info = ⟨28, 1, 0, 1⟩ ∨
    cfg.info = ⟨24, 1, 1, 1⟩ ∨ cfg.info = ⟨22, 1, 3, 1⟩ ∨ cfg.info = ⟨20, 2, 0, 0⟩ ∨ cfg.info = ⟨16, 2, 0, 0⟩ := by
  simpa [ipaInfo] using cfg.listed

/-- the level the hardware starts at is the level of the software's root -/
theorem hw_top (cfg : Config) : 3 - (2 - cfg.info.sl0) = cfg.top := by
  rcases cfg.cases with h | h | h | h | h | h <;> simp [top, rootLevel, h]

theorem top_eq (cfg : Config) : cfg.top = 2 ∨ cfg.top = 3 := by
  rcases cfg.cases with h | h | h | h | h | h <;> simp [top, rootLevel, h]

theorem rootLevel_eq (cfg : Config) : cfg.rootLevel = 3 - cfg.top := by
  rcases cfg.cases with h | h | h | h | h | h <;> simp [top, rootLevel, h]

theorem rootOrder_le (cfg : Config) : cfg.rootOrder ≤ 3 := by
  rcases cfg.cases with h | h | h | h | h | h <;> simp [rootOrder, h]

/-- the root covers the configured range -/
theorem ipaLimit_le (cfg : Config) : cfg.ipaLimit ≤ PAGE_SIZE * cfg.span := by
  rcases cfg.cases with h | h | h | h | h | h <;>
    simp [ipaLimit, span, top, rootLevel, rootOrder, PAGE_SIZE, h]

theorem ipaLimit_le_oa (cfg : Config) : cfg.ipaLimit ≤ 2 ^ 48 := by
  rcases cfg.cases with h | h | h | h | h | h <;> simp [ipaLimit, h]

theorem span_pos (cfg : Config) : 0 < cfg.span := by
  exact Nat.mul_pos (Nat.pow_pos (by decide)) (Nat.pow_pos (by decide))

end Config

/-! ## descriptors -/

/-- `pte_index` -/
def pteIndex (cfg : Config) (ipa level : Nat) : Nat :=
  let bitShift := VM_MEM_PTE_SHIFT * (3 - level) + PAGE_SIZE_SHIFT
  let offShift := if cfg.rootLevel = level then cfg.rootOrder else 0
  -- the index is a `uint32_t`
  (ipa >>> bitShift) % 2 ^ 32 &&& ((1 <<< (VM_MEM_PTE_SHIFT + offShift)) - 1)

def isPteValid (pte : Nat) : Bool := pte &&& 1 != 0

/-- `is_pte_block`, and `is_pte_res` with the same body -/
def isPteBlock (pte : Nat) : Bool := (pte &&& 1 != 0) && ((pte >>> 1) &&& 1 == 0)

/-- `x & ~(size - 1)` for a power of two -/
def alignDown (x size : Nat) : Nat := x / size * size

/-- `pte_block_address`; the mask of level 0 comes from a block size of `-1` -/
def pteBlockAddress (pte level : Nat) : Nat :=
  match level with
  | 0 => (pte &&& MMU_OA_RANGE_MASK) &&& 1
  | 1 => alignDown (pte &&& MMU_OA_RANGE_MASK) VM_MEM_BLOCK_1G
  | 2 => alignDown (pte &&& MMU_OA_RANGE_MASK) VM_MEM_BLOCK_2M
  | _ => alignDown (pte &&& MMU_OA_RANGE_MASK) PAGE_SIZE

def pteTableAddress (pte : Nat) : Nat := alignDown (pte &&& MMU_OA_RANGE_MASK) PAGE_SIZE

/-- physical memory: the doubleword at an address -/
abbrev PhysMem := Nat → Nat

/-- the address of entry `i` of the table in frame `f` -/
def pteAddr (f i : Nat) : Nat := PAGE_SIZE * f + 8 * i

theorem pteAddr_page {f i : Nat} (h : i < 512) : pteAddr f i / PAGE_SIZE = f := by
  simp only [pteAddr, PAGE_SIZE]
  lia

theorem pteAddr_inj {f g i j : Nat} (hi : i < 512) (hj : j < 512) (h : pteAddr f i = pteAddr g j) :
    f = g ∧ i = j := by
  simp only [pteAddr, PAGE_SIZE] at h
  lia

/-! ## the reference walk -/

/-- bits `[47:12]` of a descriptor -/
def outPage (pte : Nat) : Nat := pte / PAGE_SIZE % 2 ^ 36

/-- a descriptor read at level `l`: bit 0 is valid, bit 1 tells tables and pages from blocks, and only the
architecture's levels 1 and 2 have blocks -/
def entryView (l pte : Nat) : View Nat Nat :=
  if pte.testBit 0 then
    if pte.testBit 1 then
      if l = 0 then .leaf (outPage pte) else .table (outPage pte)
    else if l = 1 ∨ l = 2 then .leaf (outPage pte / 512 ^ l * 512 ^ l) else .empty
  else .empty

def store (mem : PhysMem) : Store Nat Nat := fun l f i => entryView l (mem (pteAddr f i))

/-- the frame of the table that translates page `k`: the root is `2 ^ root_order` tables in a row -/
def rootFrame (cfg : Config) (vttbr k : Nat) : Nat :=
  vttbr % 2 ^ 48 / PAGE_SIZE + k / 512 ^ (3 - (2 - cfg.info.sl0) + 1)

/-- the lookup of page `k`: the level of the leaf and its first page -/
def leafWalk (cfg : Config) (mem : PhysMem) (vttbr k : Nat) : Option (Nat × Nat) :=
  if vttbr % 2 ^ 48 = 0 then none
  else walk 512 (store mem) (3 - (2 - cfg.info.sl0)) (rootFrame cfg vttbr k) k

/-- **The reference walk**: from an intermediate physical address to a physical address. -/
def stage2Walk (cfg : Config) (mem : PhysMem) (vttbr ipa : Nat) : Option Nat :=
  if cfg.ipaLimit ≤ ipa then none
  else (leafWalk cfg mem vttbr (ipa / PAGE_SIZE)).map fun r => PAGE_SIZE * r.2 + ipa % (PAGE_SIZE * 512 ^ r.1)

/-- the walk on page numbers -/
def pageWalk (cfg : Config) (mem : PhysMem) (vttbr k : Nat) : Option Nat :=
  (leafWalk cfg mem vttbr k).map fun r => r.2 + k % 512 ^ r.1

theorem stage2Walk_eq (cfg : Config) (mem : PhysMem) (vttbr ipa : Nat) :
    stage2Walk cfg mem vttbr ipa = if cfg.ipaLimit ≤ ipa then none
      else (pageWalk cfg mem vttbr (ipa / PAGE_SIZE)).map fun p => PAGE_SIZE * p + ipa % PAGE_SIZE := by
  rw [stage2Walk, pageWalk, Option.map_map]
  congr 2
  funext r
  rw [Function.comp_apply, Nat.mod_mul, Nat.mul_add]
  lia

/-- an address that is translated, by pages -/
theorem stage2Walk_page {cfg : Config} {mem : PhysMem} {vttbr ipa pa : Nat} (h : stage2Walk cfg mem vttbr ipa = some pa) :
    ipa / PAGE_SIZE < cfg.span ∧ pageWalk cfg mem vttbr (ipa / PAGE_SIZE) = some (pa / PAGE_SIZE) := by
  rw [stage2Walk_eq] at h
  split at h
  · cases h
  · rename_i hlim
    obtain ⟨p, hp, rfl⟩ := Option.map_eq_some_iff.mp h
    rw [Nat.mul_add_div (by decide), Nat.div_eq_of_lt (Nat.mod_lt _ (by decide)), Nat.add_zero]
    exact ⟨Nat.div_lt_of_lt_mul (Nat.lt_of_lt_of_le (Nat.lt_of_not_le hlim) cfg.ipaLimit_le), hp⟩

theorem stage2Walk_congr {cfg : Config} {mem mem' : PhysMem} {vttbr vttbr' : Nat}
    (h : ∀ k < cfg.span, leafWalk cfg mem' vttbr' k = leafWalk cfg mem vttbr k) (ipa : Nat) :
    stage2Walk cfg mem' vttbr' ipa = stage2Walk cfg mem vttbr ipa := by
  rw [stage2Walk, stage2Walk]
  split
  · rfl
  · rename_i hlim
    rw [h _ (Nat.div_lt_of_lt_mul (Nat.lt_of_lt_of_le (Nat.lt_of_not_le hlim) cfg.ipaLimit_le))]

/-! ## indices and digits -/

/-- the page number of an address as the root sees it -/
def Config.key (cfg : Config) (ipa : Nat) : Nat := ipa / PAGE_SIZE % cfg.span

theorem Config.key_lt (cfg : Config) (ipa : Nat) : cfg.key ipa < cfg.span := Nat.mod_lt _ cfg.span_pos

theorem Config.key_of_lt (cfg : Config) {ipa : Nat} (h : ipa < cfg.ipaLimit) : cfg.key ipa = ipa / PAGE_SIZE :=
  Nat.mod_eq_of_lt (Nat.div_lt_of_lt_mul (Nat.lt_of_lt_of_le h cfg.ipaLimit_le))

theorem pow512 (l : Nat) : 512 ^ l = 2 ^ (9 * l) := by
  rw [Nat.pow_mul]

theorem shift_page (ipa l : Nat) : ipa >>> (VM_MEM_PTE_SHIFT * l + PAGE_SIZE_SHIFT) = ipa / PAGE_SIZE / 512 ^ l := by
  rw [Nat.shiftRight_eq_div_pow, Nat.add_comm, Nat.pow_add, Nat.div_div_eq_div_mul, pow512]
  rfl

theorem mod_pow_mod_pow {x m n : Nat} (h : n ≤ m) : x % 2 ^ m % 2 ^ n = x % 2 ^ n :=
  Nat.mod_mod_of_dvd _ (Nat.pow_dvd_pow 2 h)

/-- the key has the digits of the page number -/
theorem Config.digit_key (cfg : Config) {l : Nat} (h : l ≤ cfg.top) (ipa : Nat) :
    digit 512 l (cfg.key ipa) = digit 512 l (ipa / PAGE_SIZE) := by
  have e : cfg.span = 512 ^ l * (512 * (512 ^ (cfg.top - l) * 2 ^ cfg.rootOrder)) := by
    rw [span, show cfg.top + 1 = l + 1 + (cfg.top - l) by omega, Nat.pow_add, Nat.pow_succ]
    simp only [Nat.mul_assoc]
  rw [digit, digit, key, e, Nat.mod_mul_right_div_self, Nat.mod_mul_right_mod]

theorem pteIndex_below (cfg : Config) {level : Nat} (h : cfg.rootLevel ≠ level) (ipa : Nat) :
    pteIndex cfg ipa level = digit 512 (3 - level) (ipa / PAGE_SIZE) := by
  simp only [pteIndex, if_neg h]
  rw [shift_page, Nat.one_shiftLeft, Nat.and_two_pow_sub_one_eq_mod, mod_pow_mod_pow (by decide)]
  rfl

/-- at the root the index also counts the tables in a row -/
theorem pteIndex_root (cfg : Config) (ipa : Nat) : pteIndex cfg ipa cfg.rootLevel
      = 512 * (cfg.key ipa / 512 ^ (cfg.top + 1)) + digit 512 cfg.top (cfg.key ipa) := by
  have h3 := cfg.rootOrder_le
  simp only [pteIndex, if_true]
  rw [shift_page, Nat.one_shiftLeft, Nat.and_two_pow_sub_one_eq_mod,
    mod_pow_mod_pow (by rw [VM_MEM_PTE_SHIFT]; omega)]
  have e : 2 ^ (VM_MEM_PTE_SHIFT + cfg.rootOrder) = 512 * 2 ^ cfg.rootOrder := by
    rw [Nat.pow_add]
    rfl
  have hs : cfg.span = 512 ^ cfg.top * (512 * 2 ^ cfg.rootOrder) := by
    rw [Config.span, Nat.pow_succ, Nat.mul_assoc]
  rw [e, digit, Config.key, hs, Nat.mod_mul_right_div_self, Nat.pow_succ,
    ← Nat.div_div_eq_div_mul, Nat.mod_mul_right_div_self, Nat.div_add_mod]
  rfl

/-! ## descriptors the code writes -/

theorem isPteValid_eq (pte : Nat) : isPteValid pte = pte.testBit 0 := by
  rw [isPteValid, Nat.testBit, Nat.and_comm]
  rfl

theorem isPteBlock_eq (pte : Nat) : isPteBlock pte = (pte.testBit 0 && !pte.testBit 1) := by
  rw [isPteBlock, Nat.testBit, Nat.testBit, Nat.and_comm 1, Nat.and_comm 1]
  cases h : (pte >>> 1 &&& 1 != 0) <;> simp_all

theorem oa_page (pte : Nat) : (pte &&& MMU_OA_RANGE_MASK) / PAGE_SIZE = outPage pte := by
  rw [MMU_OA_RANGE_MASK, Nat.and_two_pow_sub_one_eq_mod, outPage, PAGE_SIZE,
    show (2 : Nat) ^ 48 = 4096 * 2 ^ 36 by decide, Nat.mod_mul_right_div_self]

theorem pteTableAddress_eq (pte : Nat) : pteTableAddress pte = PAGE_SIZE * outPage pte := by
  rw [pteTableAddress, alignDown, oa_page, Nat.mul_comm]

@[simp] theorem entryView_zero (l : Nat) : entryView l 0 = .empty := by
  simp [entryView]

/-- a descriptor made of low attribute bits and an address -/
theorem outPage_or {c pa : Nat} (hc : c < PAGE_SIZE) : outPage (c ||| pa) = pa / PAGE_SIZE % 2 ^ 36 := by
  rw [outPage, PAGE_SIZE, show (4096 : Nat) = 2 ^ 12 from rfl, Nat.or_div_two_pow,
    Nat.div_eq_of_lt (show c < 2 ^ 12 from hc), Nat.zero_or]

theorem testBit_table (pa : Nat) :
    (MMU_PTE_TABLE ||| pa).testBit 0 = true ∧ (MMU_PTE_TABLE ||| pa).testBit 1 = true := by
  rw [Nat.testBit_or, Nat.testBit_or, show MMU_PTE_TABLE.testBit 0 = true by decide,
    show MMU_PTE_TABLE.testBit 1 = true by decide]
  exact ⟨rfl, rfl⟩

/-- `MMU_PTE_TABLE|pa` above the last level points to a table -/
theorem entryView_table (l pa : Nat) :
    entryView (l + 1) (MMU_PTE_TABLE ||| pa) = .table (pa / PAGE_SIZE % 2 ^ 36) := by
  rw [entryView, if_pos (testBit_table pa).1, if_pos (testBit_table pa).2, if_neg (by omega), outPage_or (by decide)]

/-- `MMU_PTE_TABLE|pa` at the last level maps a page -/
theorem entryView_page (pa : Nat) : entryView 0 (MMU_PTE_TABLE ||| pa) = .leaf (pa / PAGE_SIZE % 2 ^ 36) := by
  rw [entryView, if_pos (testBit_table pa).1, if_pos (testBit_table pa).2, if_pos rfl, outPage_or (by decide)]

theorem testBit_low {pa i : Nat} (h : VM_MEM_BLOCK_2M ∣ pa) (hi : i < 21) : pa.testBit i = false := by
  obtain ⟨c, rfl⟩ := h
  rw [VM_MEM_BLOCK_2M, Nat.testBit_two_pow_mul]
  simp
  omega

/-- `MMU_PTE_BLOCK|pa` at the architecture's level 2 maps a block -/
theorem entryView_block {pa : Nat} (h : VM_MEM_BLOCK_2M ∣ pa) :
    entryView 1 (MMU_PTE_BLOCK ||| pa) = .leaf (pa / PAGE_SIZE % 2 ^ 36) := by
  have h0 : (MMU_PTE_BLOCK ||| pa).testBit 0 = true := by simp [MMU_PTE_BLOCK]
  have h1 : (MMU_PTE_BLOCK ||| pa).testBit 1 = false := by
    rw [Nat.testBit_or, testBit_low h (by decide)]
    decide
  have hd : 512 ∣ pa / PAGE_SIZE % 2 ^ 36 := by
    obtain ⟨c, rfl⟩ := h
    rw [VM_MEM_BLOCK_2M, PAGE_SIZE]
    omega
  rw [entryView, if_pos h0, if_neg (by simp [h1]), if_pos (.inl rfl), outPage_or (by decide),
    Nat.pow_one, Nat.div_mul_cancel hd]

end LkHv
