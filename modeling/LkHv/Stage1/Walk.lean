import LkHv.Lib.RadixTree
import LkHv.Stage1.Mmu

/-!
# The walk of a stage-1 table

The tables of an address space are a radix tree, and `arch_mmu_query` is the lookup in it.

* `descView`, `descStore`   what a descriptor means to the walk;
* `TableTree`   every table page is labelled, allocated and linked, and no descriptor is a reserved one;
* `look`        the lookup of a page: the level and the descriptor of its leaf;
* `archMmuQuery_eq`   `arch_mmu_query` answers from `look`.
-/

namespace LkHv
namespace Stage1
open Radix

/-! ## shifts -/

/-- the bytes of an entry of level `n` -/
def blockSize (n : Nat) : Nat := PAGE_SIZE * 512 ^ n

theorem blockSize_pos (n : Nat) : 0 < blockSize n := Nat.mul_pos (by decide) (Nat.pow_pos (by decide))

theorem blockSize_succ (n : Nat) : blockSize (n + 1) = blockSize n * 512 := by
  rw [blockSize, blockSize, Nat.pow_succ, Nat.mul_assoc]

theorem two_pow_indexShift (n : Nat) : 2 ^ indexShift n = blockSize n := by
  rw [indexShift, Nat.pow_add, Nat.mul_comm n, Nat.pow_mul]
  rfl

theorem shift_block (n : Nat) : 1 <<< indexShift n = blockSize n := by
  rw [Nat.one_shiftLeft, two_pow_indexShift]

theorem shiftRight_block (n x : Nat) : x >>> indexShift n = x / blockSize n := by
  rw [Nat.shiftRight_eq_div_pow, two_pow_indexShift]

theorem and_block (n x : Nat) : x &&& (1 <<< indexShift n - 1) = x % blockSize n := by
  rw [Nat.one_shiftLeft, Nat.and_two_pow_sub_one_eq_mod, two_pow_indexShift]

theorem vaddrRem_eq (n x : Nat) : vaddrRem n x = x % blockSize n := and_block n x

theorem chunkSize_eq (n x size : Nat) : chunkSize n x size = min size (blockSize n - x % blockSize n) := by
  rw [chunkSize, shift_block, vaddrRem_eq]

/-- the index of an address in its table is a digit of its page number -/
theorem digit_block (n v : Nat) : v % blockSize (n + 1) / blockSize n = digit 512 n (v / PAGE_SIZE) := by
  rw [blockSize_succ, Nat.mod_mul_right_div_self, digit, blockSize, Nat.div_div_eq_div_mul]

theorem block_div (n v : Nat) : v / blockSize n = v / PAGE_SIZE / 512 ^ n := by
  rw [blockSize, Nat.div_div_eq_div_mul]

/-! ## descriptors -/

/-- a descriptor as the walk reads it at level `l` -/
def descView (l pte : Nat) : View Nat Nat :=
  if pte &&& MMU_PTE_DESCRIPTOR_MASK = leafDescriptor l then .leaf pte
  else if 0 < l ∧ pte &&& MMU_PTE_DESCRIPTOR_MASK = MMU_PTE_L012_DESCRIPTOR_TABLE then .table (outPage pte)
  else .empty

def descStore (mem : PhysMem) : Store Nat Nat := fun l f i => descView l (mem (pteAddr f i))

/-- the types of descriptors that the code has at level `l` -/
def Plain (l pte : Nat) : Prop :=
  pte &&& MMU_PTE_DESCRIPTOR_MASK = MMU_PTE_DESCRIPTOR_INVALID ∨ pte &&& MMU_PTE_DESCRIPTOR_MASK = leafDescriptor l ∨
    0 < l ∧ pte &&& MMU_PTE_DESCRIPTOR_MASK = MMU_PTE_L012_DESCRIPTOR_TABLE

theorem leafDescriptor_ne (l : Nat) : leafDescriptor l ≠ MMU_PTE_DESCRIPTOR_INVALID := by
  unfold leafDescriptor
  split <;> decide

theorem leafDescriptor_succ (l : Nat) : leafDescriptor (l + 1) = MMU_PTE_L012_DESCRIPTOR_BLOCK := if_neg (by omega)

theorem descView_invalid {l pte : Nat} (h : pte &&& MMU_PTE_DESCRIPTOR_MASK = MMU_PTE_DESCRIPTOR_INVALID) :
    descView l pte = .empty := by
  rw [descView, h, if_neg (leafDescriptor_ne l).symm, if_neg (by simp [MMU_PTE_DESCRIPTOR_INVALID,
    MMU_PTE_L012_DESCRIPTOR_TABLE])]

theorem descView_leaf {l pte : Nat} (h : pte &&& MMU_PTE_DESCRIPTOR_MASK = leafDescriptor l) :
    descView l pte = .leaf pte := by
  rw [descView, if_pos h]

theorem descView_table {l pte : Nat} (h : pte &&& MMU_PTE_DESCRIPTOR_MASK = MMU_PTE_L012_DESCRIPTOR_TABLE) :
    descView (l + 1) pte = .table (outPage pte) := by
  rw [descView, h, leafDescriptor_succ, if_neg (by decide), if_pos ⟨by omega, rfl⟩]

theorem descView_table_iff {l pte g : Nat} (h : descView l pte = .table g) :
    0 < l ∧ pte &&& MMU_PTE_DESCRIPTOR_MASK = MMU_PTE_L012_DESCRIPTOR_TABLE ∧ g = outPage pte := by
  rw [descView] at h
  split at h
  · cases h
  · split at h
    · rename_i h1
      cases h
      exact ⟨h1.1, h1.2, rfl⟩
    · cases h

theorem plain_invalid (l : Nat) : Plain l MMU_PTE_DESCRIPTOR_INVALID := .inl (by decide)

@[simp] theorem descView_zero (l : Nat) : descView l MMU_PTE_DESCRIPTOR_INVALID = .empty :=
  descView_invalid (by decide)

/-- the output address of a descriptor -/
theorem outputAddr_eq (pte : Nat) : pte &&& MMU_PTE_OUTPUT_ADDR_MASK = PAGE_SIZE * outPage pte := by
  apply Nat.eq_of_testBit_eq
  intro i
  have e1 : MMU_PTE_OUTPUT_ADDR_MASK = (2 ^ 36 - 1) <<< 12 := by decide
  have e2 : PAGE_SIZE * outPage pte = pte / 2 ^ 12 % 2 ^ 36 * 2 ^ 12 := Nat.mul_comm _ _
  rw [Nat.testBit_and, e1, e2, Nat.testBit_shiftLeft, Nat.testBit_two_pow_sub_one, Nat.testBit_mul_two_pow,
    Nat.testBit_mod_two_pow, Nat.testBit_div_two_pow]
  by_cases h : 12 ≤ i
  · rw [show i - 12 + 12 = i by omega]
    simp [h, Bool.and_comm]
  · simp [h]

/-! ## the tables of an address space -/

/-- the tables under the root page `root`; the frames with a label are the tables -/
structure TableTree (s : Mmu) (root : Nat) (lab : Nat → Option (Label Unit)) : Prop where
  pmm : s.pmm.Wf
  rootLab : lab root = some ⟨(), topLevel, 0⟩
  /-- the allocator does not give out the root, which may be a page of the kernel's own -/
  rootPage : s.pmm.Ram root → s.pmm.nonfree root = true
  used : ∀ f, f ≠ root → lab f ≠ none → s.pmm.Ram f ∧ s.pmm.nonfree f = true
  forest : Forest 512 lab (descStore s.mem)
  linked : Linked 512 lab (descStore s.mem) topLevel fun _ => root
  plain : ∀ f l p, lab f = some ⟨(), l, p⟩ → ∀ i < 512, Plain l (s.mem (pteAddr f i))

/-- the leaf of page `k`: its level and its descriptor -/
def look (s : Mmu) (root k : Nat) : Option (Nat × Nat) := walk 512 (descStore s.mem) topLevel root k

/-- the pages of the 48 bits -/
def PAGES : Nat := 512 ^ (topLevel + 1)

theorem PAGES_eq : PAGES = 2 ^ 36 := by decide

theorem div_PAGES {k : Nat} (hk : k < PAGES) : k / 512 ^ (topLevel + 1) = 0 := Nat.div_eq_of_lt hk

theorem page_lt {v : Nat} (hv : v < 2 ^ MMU_SIZE_SHIFT) : v / PAGE_SIZE < PAGES := by
  rw [PAGES_eq]
  rw [MMU_SIZE_SHIFT] at hv
  simp only [PAGE_SIZE]
  lia

namespace TableTree
variable {s : Mmu} {root : Nat} {lab : Nat → Option (Label Unit)}

theorem roots (h : TableTree s root lab) : ∀ t : Unit, lab ((fun _ => root) t) = some ⟨t, topLevel, 0⟩ :=
  fun _ => h.rootLab

/-- only the root is at the top -/
theorem eq_root (h : TableTree s root lab) {f p : Nat} (hf : lab f = some ⟨(), topLevel, p⟩) : f = root := by
  obtain ⟨h1, -, -⟩ := h.linked f () _ _ hf
  have hp : p = 0 := by
    rwa [Nat.mul_div_cancel _ (Nat.pow_pos (by decide))] at h1
  subst hp
  exact h.linked.inj hf h.rootLab

theorem level_le (h : TableTree s root lab) {f l p : Nat} (hf : lab f = some ⟨(), l, p⟩) : l ≤ topLevel :=
  (h.linked f () _ _ hf).2.1

theorem ne_root (h : TableTree s root lab) {f l p : Nat} (hf : lab f = some ⟨(), l, p⟩) (hl : l < topLevel) :
    f ≠ root := by
  rintro rfl
  have e := (Label.mk.inj (Option.some.inj (h.rootLab.symm.trans hf))).2.1
  omega

/-- a table entry points to the table with the right label -/
theorem child (h : TableTree s root lab) {f n p i : Nat} (hf : lab f = some ⟨(), n + 1, p⟩) (hi : i < 512)
    (ht : s.mem (pteAddr f i) &&& MMU_PTE_DESCRIPTOR_MASK = MMU_PTE_L012_DESCRIPTOR_TABLE) :
    lab (outPage (s.mem (pteAddr f i))) = some ⟨(), n, p * 512 + i⟩ :=
  h.forest f () n p i _ hf hi (descView_table ht)

/-- `arch_mmu_query` from a table on is the lookup -/
theorem queryLoop_eq (h : TableTree s root lab) (v : Nat) : ∀ {n f : Nat},
    lab f = some ⟨(), n, v / PAGE_SIZE / 512 ^ (n + 1)⟩ →
    queryLoop s.mem n (PAGE_SIZE * f) (v % blockSize (n + 1)) =
      some (match walk 512 (descStore s.mem) n f (v / PAGE_SIZE) with
        | none => .error ERR_NOT_FOUND
        | some (l, pte) => .ok (pte, v % blockSize l)) := by
  intro n
  induction n with
  | zero =>
    intro f hf
    have hd := digit_lt (B := 512) (by decide) 0 (v / PAGE_SIZE)
    have hp := h.plain f 0 _ hf _ hd
    have he : v % blockSize (0 + 1) - v % blockSize (0 + 1) / blockSize 0 * blockSize 0 = v % blockSize 0 := by
      rw [← Nat.mod_eq_sub_div_mul, blockSize_succ, Nat.mod_mul_right_mod]
    rw [queryLoop, walk, descStore]
    simp only [shiftRight_block, Nat.shiftLeft_eq, two_pow_indexShift, he]
    rw [digit_block]
    show (if s.mem (pteAddr f (digit 512 0 (v / PAGE_SIZE))) &&& MMU_PTE_DESCRIPTOR_MASK
        = MMU_PTE_DESCRIPTOR_INVALID then _ else _) = _
    rcases hp with hp | hp | hp
    · rw [if_pos hp, descView_invalid hp]
    · rw [descView_leaf hp, hp, if_neg (leafDescriptor_ne 0)]
      exact if_pos hp
    · exact absurd hp.1 (by omega)
  | succ n ih =>
    intro f hf
    have hd := digit_lt (B := 512) (by decide) (n + 1) (v / PAGE_SIZE)
    have hp := h.plain f (n + 1) _ hf _ hd
    have he : v % blockSize (n + 1 + 1) - v % blockSize (n + 1 + 1) / blockSize (n + 1) * blockSize (n + 1)
        = v % blockSize (n + 1) := by
      rw [← Nat.mod_eq_sub_div_mul, blockSize_succ (n + 1), Nat.mod_mul_right_mod]
    rw [queryLoop, walk, descStore]
    simp only [shiftRight_block, Nat.shiftLeft_eq, two_pow_indexShift, he]
    rw [digit_block]
    show (if s.mem (pteAddr f (digit 512 (n + 1) (v / PAGE_SIZE))) &&& MMU_PTE_DESCRIPTOR_MASK
        = MMU_PTE_DESCRIPTOR_INVALID then _ else _) = _
    rcases hp with hp | hp | hp
    · rw [if_pos hp, descView_invalid hp]
    · rw [descView_leaf hp, hp, if_neg (leafDescriptor_ne _)]
      exact if_pos hp
    · have ht := hp.2
      have hc := h.child hf hd ht
      rw [← div_eq_pfx] at hc
      rw [descView_table ht, ← ih hc, ← outputAddr_eq, if_neg (by rw [ht]; decide)]
      show (if s.mem (pteAddr f (digit 512 (n + 1) (v / PAGE_SIZE))) &&& MMU_PTE_DESCRIPTOR_MASK
          = leafDescriptor (n + 1) then _ else _) = _
      rw [ht, leafDescriptor_succ, if_neg (by decide)]
      exact if_neg fun hn => hn ht

end TableTree

/-- what `arch_mmu_query` makes of a leaf -/
def answer (v : Nat) (r : Option (Nat × Nat)) : Option (Except Int (Nat × Nat)) :=
  match r with
  | none => some (.error ERR_NOT_FOUND)
  | some (l, pte) => (queryFlags pte).map fun flags => .ok (PAGE_SIZE * outPage pte + v % blockSize l, flags)

/-- **`arch_mmu_query`** answers from the lookup of the page. -/
theorem archMmuQuery_eq {s : Mmu} {root : Nat} {lab : Nat → Option (Label Unit)} (h : TableTree s root lab)
    {aspace : ArchAspace} (ha : aspace.ttVirt = PAGE_SIZE * root) {v : Nat} (hv : v < 2 ^ MMU_SIZE_SHIFT) :
    archMmuQuery s.mem aspace v
      = if isValidVaddr aspace v then answer v (look s root (v / PAGE_SIZE)) else some (.error ERR_OUT_OF_RANGE) := by
  rw [archMmuQuery]
  by_cases hval : isValidVaddr aspace v = true
  · have hlt : v < blockSize (topLevel + 1) := hv
    have hidx : v >>> indexShift topLevel < 512 := by
      rw [shiftRight_block, Nat.div_lt_iff_lt_mul (blockSize_pos _), Nat.mul_comm, ← blockSize_succ]
      exact hlt
    have hq := h.queryLoop_eq v (n := topLevel) (f := root) (by rw [div_PAGES (page_lt hv), h.rootLab])
    rw [Nat.mod_eq_of_lt hlt] at hq
    rw [if_neg (not_not_intro hval), if_neg fun hn => hn.2 hidx, ha, hq, if_pos hval, look]
    cases hw : walk 512 (descStore s.mem) topLevel root (v / PAGE_SIZE) with
    | none => rfl
    | some r => simp only [answer, outputAddr_eq]
  · rw [if_pos hval, if_neg hval]

end Stage1
end LkHv
