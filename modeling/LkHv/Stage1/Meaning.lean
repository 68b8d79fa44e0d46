import LkHv.Stage1.Map

/-!
# What `arm64_mmu_map` and `arm64_mmu_unmap` do to the translations

* `Expressible`, `queryFlags_leaf`   the flags that come back from a descriptor;
* `arm64MmuMap_spec`, `arm64MmuUnmap_spec`   the two functions on the tables;
* `runCalls_tree`   the tables stay a tree over any sequence of calls, and no call panics;
* `mmu_exact`       when the translations are exactly those that were asked for;
* `arm64MmuMap_undone`   a call that failed has changed no translation.
-/

namespace LkHv
namespace Stage1
open Radix

/-! ## flags -/

/-- the flags that a descriptor can express -/
def Expressible (flags : Nat) : Prop := flags < 64 ∧ flags &&& ARCH_MMU_FLAG_CACHE_MASK ≠ ARCH_MMU_FLAG_CACHE_MASK

theorem queryFlags_attr : ∀ flags < 64, flags &&& ARCH_MMU_FLAG_CACHE_MASK ≠ ARCH_MMU_FLAG_CACHE_MASK →
    queryFlags (mmuFlagsToPteAttr flags) = some flags ∧ outPage (mmuFlagsToPteAttr flags) = 0 := by
  decide

/-- attributes leave the type of a descriptor alone -/
theorem attr_type (flags : Nat) : mmuFlagsToPteAttr flags &&& MMU_PTE_DESCRIPTOR_MASK = 0 := by
  have hperm : permAttr flags &&& MMU_PTE_DESCRIPTOR_MASK = 0 := by
    simp only [permAttr]
    split
    · rfl
    · split
      · rfl
      · split <;> rfl
  rw [mmuFlagsToPteAttr]
  cases hc : cacheAttr flags with
  | none => simp [ERR_INVALID_ARGS, MMU_PTE_DESCRIPTOR_MASK]
  | some cache =>
    have hcache : cache &&& MMU_PTE_DESCRIPTOR_MASK = 0 := by
      simp only [cacheAttr] at hc
      split at hc
      · cases hc
        rfl
      · split at hc
        · cases hc
          rfl
        · split at hc
          · cases hc
            rfl
          · cases hc
    simp only [Nat.and_or_distrib_right, hcache, hperm]
    split <;> split <;> rfl

/-- the bits of an output address are those from 12 to 47 -/
theorem addr_and {b m : Nat} (hb : PAGE_SIZE ∣ b) (hlt : b < 2 ^ 48)
    (hm : ∀ i, m.testBit i = true → i < 12 ∨ 48 ≤ i) : b &&& m = 0 := by
  apply Nat.eq_of_testBit_eq
  intro i
  rw [Nat.testBit_and, Nat.zero_testBit]
  by_cases h : m.testBit i = true
  · rw [h, Bool.and_true]
    rcases hm i h with h1 | h1
    · obtain ⟨c, rfl⟩ := hb
      rw [show PAGE_SIZE = 2 ^ 12 from rfl, Nat.testBit_two_pow_mul]
      simp
      omega
    · exact Nat.testBit_lt_two_pow (Nat.lt_of_lt_of_le hlt (Nat.pow_le_pow_right (by decide) h1))
  · rw [Bool.not_eq_true _ |>.mp h, Bool.and_false]

theorem low_bits {m : Nat} (hm : m < 2 ^ 12) : ∀ i, m.testBit i = true → i < 12 ∨ 48 ≤ i := by
  intro i hi
  left
  by_contra hn
  rw [Nat.testBit_lt_two_pow (Nat.lt_of_lt_of_le hm (Nat.pow_le_pow_right (by decide) (by omega)))] at hi
  cases hi

theorem high_bit {j : Nat} (hj : 48 ≤ j) : ∀ i, (1 <<< j).testBit i = true → i < 12 ∨ 48 ≤ i := by
  intro i hi
  rw [Nat.one_shiftLeft, Nat.testBit_two_pow] at hi
  have := of_decide_eq_true hi
  omega

/-- **The flags of a leaf** are those it was made of. -/
theorem queryFlags_leaf {b attrs l : Nat} (hb : PAGE_SIZE ∣ b) (hlt : b < 2 ^ 48) :
    queryFlags (b ||| attrs ||| leafDescriptor l) = queryFlags attrs := by
  have key : ∀ m, (∀ i, m.testBit i = true → i < 12 ∨ 48 ≤ i) → leafDescriptor l &&& m = 0 →
      (b ||| attrs ||| leafDescriptor l) &&& m = attrs &&& m := by
    intro m hm hl
    rw [Nat.and_or_distrib_right, Nat.and_or_distrib_right, addr_and hb hlt hm, hl, Nat.zero_or, Nat.or_zero]
  have hd : ∀ m, 1 &&& m = 0 → 3 &&& m = 0 → leafDescriptor l &&& m = 0 := by
    intro m h1 h3
    unfold leafDescriptor
    split
    · exact h3
    · exact h1
  rw [queryFlags, queryFlags]
  simp only [key MMU_PTE_ATTR_ATTR_INDEX_MASK (low_bits (by decide)) (hd _ rfl rfl),
    key MMU_PTE_ATTR_AP_MASK (low_bits (by decide)) (hd _ rfl rfl),
    key MMU_PTE_ATTR_NON_SECURE (low_bits (by decide)) (hd _ rfl rfl),
    key MMU_PTE_ATTR_UXN (high_bit (by decide)) (hd _ rfl rfl),
    key MMU_PTE_ATTR_PXN (high_bit (by decide)) (hd _ rfl rfl)]

theorem outPage_or' (x y : Nat) : outPage (x ||| y) = outPage x ||| outPage y := by
  rw [outPage, PAGE_SIZE, show (4096 : Nat) = 2 ^ 12 from rfl, Nat.or_div_two_pow, Nat.or_mod_two_pow]
  rfl

/-- the output address of a leaf -/
theorem outPage_leaf {b attrs l : Nat} (hattrs : outPage attrs = 0) (hb : PAGE_SIZE ∣ b) :
    PAGE_SIZE * outPage (b ||| attrs ||| leafDescriptor l) = b % 2 ^ 48 := by
  have hl : outPage (leafDescriptor l) = 0 := by
    unfold leafDescriptor
    split <;> rfl
  obtain ⟨c, rfl⟩ := hb
  rw [outPage_or', outPage_or', hattrs, hl, Nat.or_zero, Nat.or_zero, outPage, Nat.mul_div_cancel_left _ (by decide),
    show (2 : Nat) ^ 48 = PAGE_SIZE * 2 ^ 36 from rfl, Nat.mul_mod_mul_left]

/-! ## the two functions -/

variable {root : Nat} {s s' : Mmu} {lab : Nat → Option (Label Unit)}

theorem inRange_of {vaddr size : Nat} (h : outOfRange vaddr size = false) : vaddr + size ≤ 2 ^ MMU_SIZE_SHIFT := by
  rw [outOfRange, decide_eq_false_iff_not] at h
  simp only [sub64, MMU_SIZE_SHIFT] at h ⊢
  omega

theorem outOfRange_of {vaddr size : Nat} (h : vaddr + size ≤ 2 ^ MMU_SIZE_SHIFT) : outOfRange vaddr size = false := by
  rw [outOfRange, decide_eq_false_iff_not]
  simp only [sub64, MMU_SIZE_SHIFT] at h ⊢
  omega

/-- a call that succeeded was given pages -/
theorem mapPt_aligned {attrs n rel pa size table : Nat} (h : mapPt attrs n s rel pa size table = some (s', 0)) :
    PAGE_SIZE ∣ rel ∧ PAGE_SIZE ∣ size := by
  have key : ∀ sub, mapBody sub attrs n s rel pa size table = some (s', 0) → PAGE_SIZE ∣ rel ∧ PAGE_SIZE ∣ size := by
    intro sub hb
    rw [mapBody] at hb
    split at hb
    · cases hb
    · rename_i ha
      have h1 := (or_and_block 0 (rel ||| pa) size).mp (not_not.mp ha)
      have h2 := h1.1
      rw [← and_block, or_and_block] at h2
      exact ⟨Nat.dvd_of_mod_eq_zero h2.1, Nat.dvd_of_mod_eq_zero h1.2⟩
  cases n with
  | zero => exact key _ h
  | succ n => exact key _ h

/-- **`arm64_mmu_map`** maps its range, or changes no lookup. -/
theorem arm64MmuMap_spec (h : TableTree s root lab) (vaddr size : Nat) {paddr attrs : Nat} (hp : paddr < 2 ^ 64)
    (hattrs : attrs &&& MMU_PTE_DESCRIPTOR_MASK = 0) :
    ∃ s' ret lab', arm64MmuMap s vaddr paddr size attrs (PAGE_SIZE * root) = some (s', ret) ∧ TableTree s' root lab' ∧
      (ret = 0 → vaddr + size ≤ 2 ^ MMU_SIZE_SHIFT ∧ PAGE_SIZE ∣ vaddr ∧ PAGE_SIZE ∣ size ∧
        Maps attrs vaddr paddr size (look s root) (look s' root)) ∧
      (ret ≠ 0 → ∀ k < PAGES, look s' root k = look s root k) := by
  rw [arm64MmuMap]
  split
  · exact ⟨s, _, lab, rfl, h, nofun, fun _ _ _ => rfl⟩
  · rename_i ho
    have hr := inRange_of (Bool.not_eq_true _ |>.mp ho)
    split
    · exact ⟨s, _, lab, rfl, h, nofun, fun _ _ _ => rfl⟩
    · obtain ⟨s', ret, lab', h1, h2, -, h3, h4⟩ := mapPt_spec root hattrs topLevel s lab root 0 vaddr paddr
        size h h.rootLab hr hp
      refine ⟨s', ret, lab', h1, h2, fun h0 => ?_, h4⟩
      subst h0
      obtain ⟨h5, h6⟩ := mapPt_aligned h1
      have h7 := h3 rfl
      rw [Nat.zero_mul, Nat.zero_add] at h7
      exact ⟨hr, h5, h6, h7⟩

/-- **`arm64_mmu_unmap`** takes out the leaves that meet its range. -/
theorem arm64MmuUnmap_spec (h : TableTree s root lab) (hroot : root ≠ 0) {vaddr size : Nat}
    (hr : vaddr + size ≤ 2 ^ MMU_SIZE_SHIFT) :
    ∃ s' lab', arm64MmuUnmap s vaddr size (PAGE_SIZE * root) = some (s', 0) ∧ TableTree s' root lab' ∧
      (∀ k < PAGES, look s' root k = cut PAGE_SIZE 512 (look s root) vaddr size k) ∧
      ∀ a, s'.mem a ≠ s.mem a → ∃ f i, lab f ≠ none ∧ i < 512 ∧ a = pteAddr f i := by
  have hne : PAGE_SIZE * root ≠ 0 := Nat.mul_ne_zero (by decide) hroot
  obtain ⟨s', lab', h1, h2⟩ := unmapPt_spec root topLevel s lab root 0 vaddr size h h.rootLab hr
  rw [arm64MmuUnmap, outOfRange_of hr, if_neg Bool.false_ne_true, if_neg hne, h1]
  refine ⟨s', lab', rfl, h2.tree, fun k hk => ?_, h2.touched⟩
  rw [h2.cuts k hk, Nat.zero_mul, Nat.zero_add]

/-! ## runs -/

/-- the calls that change the tables of an address space -/
inductive Call where
  | map (vaddr paddr count flags : Nat)
  | unmap (vaddr count : Nat)

def runCall (aspace : ArchAspace) (s : Mmu) : Call → Option (Mmu × Int)
  | .map vaddr paddr count flags => archMmuMap s aspace vaddr paddr count flags
  | .unmap vaddr count => archMmuUnmap s aspace vaddr count

def runCalls (aspace : ArchAspace) (s : Mmu) : List Call → Option Mmu
  | [] => some s
  | c :: cs => (runCall aspace s c).bind fun r => runCalls aspace r.1 cs

/-- the physical address of the call is a `paddr_t` -/
def Call.Ok : Call → Prop
  | .map _ paddr _ _ => paddr < 2 ^ 64
  | .unmap _ _ => True

theorem arm64MmuUnmap_tree (h : TableTree s root lab) (vaddr size : Nat) :
    ∃ s' ret lab', arm64MmuUnmap s vaddr size (PAGE_SIZE * root) = some (s', ret) ∧ TableTree s' root lab' := by
  by_cases ho : outOfRange vaddr size = true
  · rw [arm64MmuUnmap, if_pos ho]
    exact ⟨s, _, lab, rfl, h⟩
  · by_cases hroot : PAGE_SIZE * root = 0
    · rw [arm64MmuUnmap, if_neg ho, if_pos hroot]
      exact ⟨s, _, lab, rfl, h⟩
    · have hne : root ≠ 0 := fun e => hroot (by rw [e, Nat.mul_zero])
      obtain ⟨s', lab', h1, h2, -⟩ := arm64MmuUnmap_spec h hne (inRange_of (Bool.not_eq_true _ |>.mp ho))
      exact ⟨s', 0, lab', h1, h2⟩

theorem runCall_tree {aspace : ArchAspace} (ha : aspace.ttVirt = PAGE_SIZE * root) (h : TableTree s root lab)
    {c : Call} (hc : c.Ok) : ∃ s' ret lab', runCall aspace s c = some (s', ret) ∧ TableTree s' root lab' := by
  cases c with
  | map vaddr paddr count flags =>
    rw [runCall, archMmuMap, ha]
    split
    · exact ⟨s, _, lab, rfl, h⟩
    · split
      · exact ⟨s, _, lab, rfl, h⟩
      · split
        · exact ⟨s, _, lab, rfl, h⟩
        · obtain ⟨s', ret, lab', h1, h2, -⟩ := arm64MmuMap_spec h vaddr (count * PAGE_SIZE) hc
            (attr_type flags)
          exact ⟨s', ret, lab', h1, h2⟩
  | unmap vaddr count =>
    rw [runCall, archMmuUnmap, ha]
    split
    · exact ⟨s, _, lab, rfl, h⟩
    · split
      · exact ⟨s, _, lab, rfl, h⟩
      · exact arm64MmuUnmap_tree h vaddr _

/-- **Any sequence of calls** ends, without a panic, in a tree of tables. -/
theorem runCalls_tree {aspace : ArchAspace} (ha : aspace.ttVirt = PAGE_SIZE * root) {cs : List Call}
    (hcs : ∀ c ∈ cs, c.Ok) (h : TableTree s root lab) :
    ∃ s' lab', runCalls aspace s cs = some s' ∧ TableTree s' root lab' := by
  induction cs generalizing s lab with
  | nil => exact ⟨s, lab, rfl, h⟩
  | cons c cs ih =>
    obtain ⟨s₁, ret, lab₁, h1, h2⟩ := runCall_tree ha h (hcs c (by simp))
    rw [runCalls, h1, Option.bind_some]
    exact ih (fun c' hc' => hcs c' (by simp [hc'])) h2

/-- no table but the root -/
def rootOnly (root f : Nat) : Option (Label Unit) := if f = root then some ⟨(), topLevel, 0⟩ else none

theorem rootOnly_some {f : Nat} {x : Label Unit} (h : rootOnly root f = some x) : f = root ∧ x = ⟨(), topLevel, 0⟩ := by
  rw [rootOnly] at h
  split at h
  · rename_i e
    cases h
    exact ⟨e, rfl⟩
  · cases h

/-- an empty root page -/
theorem TableTree.init {pmm : Pmm} (hw : pmm.Wf) (hroot : pmm.Ram root → pmm.nonfree root = true) {mem : PhysMem}
    (hmem : ∀ i < 512, mem (pteAddr root i) = 0) : TableTree ⟨mem, pmm⟩ root (rootOnly root) where
  pmm := hw
  rootLab := if_pos rfl
  rootPage := hroot
  used f hf hl := absurd (if_neg hf) hl
  forest := by
    intro f t l p i g hf hi hg
    obtain ⟨rfl, -⟩ := rootOnly_some hf
    have h0 : descView (l + 1) 0 = .empty := descView_zero (l + 1)
    rw [descStore, show (⟨mem, pmm⟩ : Mmu).mem (pteAddr f i) = 0 from hmem i hi, h0] at hg
    cases hg
  linked := by
    intro g t l p hg
    obtain ⟨rfl, e⟩ := rootOnly_some hg
    cases e
    refine ⟨by rw [Nat.zero_mul, Nat.zero_div], le_rfl, ?_⟩
    exact slot_self _ _ _
  plain f l p hf i hi := by
    obtain ⟨rfl, -⟩ := rootOnly_some hf
    show Plain l (mem (pteAddr f i))
    rw [hmem i hi]
    exact plain_invalid l

/-! ## what the caller sees -/

/-- the address is in the range of `size` bytes from `vaddr` on -/
def InRange (vaddr size v : Nat) : Prop := vaddr ≤ v ∧ v < vaddr + size

/-- the range is one of the address space -/
structure ArchAspace.Has (aspace : ArchAspace) (vaddr size : Nat) : Prop where
  wrap : aspace.base + aspace.size ≤ 2 ^ 64
  small : aspace.size < 2 ^ 64
  first : aspace.base ≤ vaddr
  last : vaddr + size ≤ aspace.base + aspace.size

theorem ArchAspace.Has.valid {aspace : ArchAspace} {vaddr size v : Nat} (h : aspace.Has vaddr size)
    (hv : InRange vaddr size v) : isValidVaddr aspace v = true := by
  obtain ⟨h1, h2, h3, h4⟩ := h
  obtain ⟨h5, h6⟩ := hv
  rw [isValidVaddr, last64_eq h1 (by omega)]
  exact decide_eq_true (by omega)

/-- `arm64_mmu_map` has mapped the range and nothing else -/
structure MapExact (aspace : ArchAspace) (s s' : Mmu) (vaddr paddr size flags : Nat) : Prop where
  mapped : Expressible flags → ∀ k < size, archMmuQuery s'.mem aspace (vaddr + k) = some (.ok (paddr + k, flags))
  others : ∀ v < 2 ^ MMU_SIZE_SHIFT, ¬ InRange vaddr size v →
    archMmuQuery s'.mem aspace v = archMmuQuery s.mem aspace v

/-- `arm64_mmu_unmap` has unmapped the range and nothing else, by stores to the entries of tables -/
structure UnmapExact (aspace : ArchAspace) (s s' : Mmu) (vaddr size : Nat) : Prop where
  removed : ∀ v, InRange vaddr size v → archMmuQuery s'.mem aspace v = some (.error ERR_NOT_FOUND)
  others : ∀ v < 2 ^ MMU_SIZE_SHIFT, ¬ InRange vaddr size v →
    archMmuQuery s'.mem aspace v = archMmuQuery s.mem aspace v
  touched : ∀ a, s'.mem a ≠ s.mem a →
    ∃ f i, (PAGE_SIZE * f = aspace.ttVirt ∨ s.pmm.Ram f ∧ s.pmm.nonfree f = true) ∧ i < 512 ∧ a = pteAddr f i

theorem look_query {lab' : Nat → Option (Label Unit)} {aspace : ArchAspace} (ha : aspace.ttVirt = PAGE_SIZE * root)
    (h : TableTree s root lab) (h' : TableTree s' root lab') {v : Nat} (hv : v < 2 ^ MMU_SIZE_SHIFT)
    (he : look s' root (v / PAGE_SIZE) = look s root (v / PAGE_SIZE)) :
    archMmuQuery s'.mem aspace v = archMmuQuery s.mem aspace v := by
  rw [archMmuQuery_eq h' ha hv, archMmuQuery_eq h ha hv, he]

/-- an address of a range of pages is in a page of the range -/
theorem inRange_page {vaddr size v : Nat} (h1 : PAGE_SIZE ∣ vaddr) (h2 : PAGE_SIZE ∣ size) :
    (vaddr ≤ PAGE_SIZE * (v / PAGE_SIZE) ∧ PAGE_SIZE * (v / PAGE_SIZE) < vaddr + size) ↔ InRange vaddr size v := by
  obtain ⟨m, rfl⟩ := h1
  obtain ⟨c, rfl⟩ := h2
  rw [InRange, ← Nat.mul_add, Nat.mul_le_mul_left_iff (by decide), Nat.mul_lt_mul_left (by decide),
    Nat.le_div_iff_mul_le (by decide), Nat.div_lt_iff_lt_mul (by decide), Nat.mul_comm m, Nat.mul_comm (m + c)]

/-- what `arch_mmu_query` says about an address whose leaf is one of the range -/
theorem answer_leaf {vaddr paddr size flags v : Nat} {r : Option (Nat × Nat)} (hf : Expressible flags)
    (hmax : ∀ l pte, r = some (l, pte) → l ≤ topLevel)
    (hl : LeafOf (mmuFlagsToPteAttr flags) vaddr paddr size (v / PAGE_SIZE) r) :
    ∃ l b, answer v r = ((queryFlags (b ||| mmuFlagsToPteAttr flags ||| leafDescriptor l)).map fun flags =>
        .ok (b % 2 ^ 48 + v % blockSize l, flags)) ∧
      b % 2 ^ 48 + v % blockSize l < 2 ^ 48 ∧ PAGE_SIZE ∣ b ∧ v % blockSize l ≤ v ∧
      vaddr ≤ v - v % blockSize l ∧ v < vaddr + size ∧ b = add64 paddr (v - v % blockSize l - vaddr) := by
  obtain ⟨l, b, h1, h2, h3, h4, h5⟩ := hl
  have hb : PAGE_SIZE ∣ b := Nat.dvd_trans (page_block l) h5
  have hle := hmax _ _ h1
  have hpos := blockSize_pos l
  have hmod := Nat.mod_lt v hpos
  have hdiv := Nat.div_add_mod v (blockSize l)
  rw [Nat.mul_comm] at hdiv
  rw [← block_div] at h2 h3 h4
  rw [Nat.succ_mul] at h3
  have hx : v - v % blockSize l = v / blockSize l * blockSize l := by lia
  refine ⟨l, b, ?_, ?_, hb, Nat.mod_le _ _, ?_, ?_, ?_⟩
  · rw [h1]
    simp only [answer, outPage_leaf (queryFlags_attr flags hf.1 hf.2).2 hb]
  · -- the block lies below 2^48
    have hd : blockSize l ∣ 2 ^ 48 := by
      rw [← two_pow_indexShift]
      apply Nat.pow_dvd_pow
      rw [topLevel] at hle
      rw [indexShift, PAGE_SIZE_SHIFT]
      lia
    obtain ⟨c, hc⟩ := (Nat.dvd_mod_iff hd).mpr h5
    obtain ⟨d, hd⟩ := hd
    have hlt := Nat.mod_lt b (show 0 < 2 ^ 48 by decide)
    have h6 : c + 1 ≤ d := by
      rw [hc, hd] at hlt
      exact Nat.lt_of_mul_lt_mul_left hlt
    have h7 := Nat.mul_le_mul_left (blockSize l) h6
    rw [← hd, Nat.mul_succ, ← hc] at h7
    lia
  · lia
  · lia
  · rw [hx]
    exact h4

theorem look_level {k l pte : Nat} (h : look s root k = some (l, pte)) : l ≤ topLevel := walk_le h

/-- the leaves that the range touches lie in it, as far as the address space goes -/
def WholeLeaves (aspace : ArchAspace) (s : Mmu) (root vaddr size : Nat) : Prop :=
  ∀ v < 2 ^ MMU_SIZE_SHIFT, isValidVaddr aspace v = true → ¬ InRange vaddr size v →
    ∀ l pte, look s root (v / PAGE_SIZE) = some (l, pte) → ¬ Touches PAGE_SIZE 512 l (v / PAGE_SIZE) vaddr size

/-- **`arm64_mmu_map`** does what it is to do if and only if the physical range has 48-bit addresses. -/
theorem mapExact_iff (h : TableTree s root lab) {aspace : ArchAspace} (ha : aspace.ttVirt = PAGE_SIZE * root)
    {vaddr paddr count flags : Nat} (hp : paddr < 2 ^ 64) (hin : aspace.Has vaddr (count * PAGE_SIZE))
    (hs : arm64MmuMap s vaddr paddr (count * PAGE_SIZE) (mmuFlagsToPteAttr flags) aspace.ttVirt = some (s', 0)) :
    MapExact aspace s s' vaddr paddr (count * PAGE_SIZE) flags ↔
      (Expressible flags → ∀ k < count * PAGE_SIZE, paddr + k < 2 ^ 48) := by
  obtain ⟨s₁, ret, lab', h1, h2, h3, -⟩ := arm64MmuMap_spec h vaddr (count * PAGE_SIZE) hp
    (attr_type flags)
  rw [ha, h1] at hs
  cases hs
  obtain ⟨h4, h5, h6, h7⟩ := h3 rfl
  have hothers : ∀ v < 2 ^ MMU_SIZE_SHIFT, ¬ InRange vaddr (count * PAGE_SIZE) v →
      archMmuQuery s'.mem aspace v = archMmuQuery s.mem aspace v := by
    intro v hv hn
    have h8 := h7 _ (page_lt hv)
    rw [if_neg (mt (inRange_page h5 h6).mp hn)] at h8
    exact look_query ha h h2 hv h8
  -- what the query says about an address of the range
  have hquery : Expressible flags → ∀ v, InRange vaddr (count * PAGE_SIZE) v → ∃ l b,
      archMmuQuery s'.mem aspace v = ((queryFlags (b ||| mmuFlagsToPteAttr flags ||| leafDescriptor l)).map
        fun flags => .ok (b % 2 ^ 48 + v % blockSize l, flags)) ∧
      b % 2 ^ 48 + v % blockSize l < 2 ^ 48 ∧ PAGE_SIZE ∣ b ∧ v % blockSize l ≤ v ∧
      vaddr ≤ v - v % blockSize l ∧ v < vaddr + count * PAGE_SIZE ∧
      b = add64 paddr (v - v % blockSize l - vaddr) := by
    intro hf v hv
    have hv48 : v < 2 ^ MMU_SIZE_SHIFT := Nat.lt_of_lt_of_le hv.2 h4
    have h8 := h7 _ (page_lt hv48)
    rw [if_pos ((inRange_page h5 h6).mpr hv)] at h8
    rw [archMmuQuery_eq h2 ha hv48, if_pos (hin.valid hv)]
    exact answer_leaf hf (fun l pte hl => look_level hl) h8.2
  constructor
  · intro hm hf k hk
    have hv : InRange vaddr (count * PAGE_SIZE) (vaddr + k) := ⟨by omega, by omega⟩
    obtain ⟨l, b, h8, h9, -⟩ := hquery hf _ hv
    rw [hm.mapped hf k hk] at h8
    cases hq : queryFlags (b ||| mmuFlagsToPteAttr flags ||| leafDescriptor l) with
    | none =>
      rw [hq] at h8
      cases h8
    | some fl =>
      rw [hq, Option.map_some, Option.some.injEq, Except.ok.injEq, Prod.mk.injEq] at h8
      omega
  · intro hp48
    refine ⟨fun hf k hk => ?_, hothers⟩
    have hv : InRange vaddr (count * PAGE_SIZE) (vaddr + k) := ⟨by omega, by omega⟩
    obtain ⟨l, b, h8, -, h9, h10, h11, h12, h13⟩ := hquery hf _ hv
    have hk48 := hp48 hf k hk
    have hb : b = paddr + (vaddr + k - (vaddr + k) % blockSize l - vaddr) := by
      rw [h13]
      apply add64_of_lt
      omega
    have hb48 : b < 2 ^ 48 := by omega
    rw [h8, queryFlags_leaf h9 hb48, (queryFlags_attr flags hf.1 hf.2).1, Option.map_some, Nat.mod_eq_of_lt hb48]
    have he : b + (vaddr + k) % blockSize l = paddr + k := by omega
    rw [he]

/-- **`arm64_mmu_unmap`** does what it is to do if and only if it touches whole leaves only. -/
theorem unmapExact_iff (h : TableTree s root lab) (hroot : root ≠ 0) {aspace : ArchAspace}
    (ha : aspace.ttVirt = PAGE_SIZE * root) {vaddr size : Nat} (hr : vaddr + size ≤ 2 ^ MMU_SIZE_SHIFT)
    (hin : aspace.Has vaddr size) : ∃ s', arm64MmuUnmap s vaddr size aspace.ttVirt = some (s', 0) ∧
      (UnmapExact aspace s s' vaddr size ↔ WholeLeaves aspace s root vaddr size) := by
  obtain ⟨s', lab', h1, h2, h3, h4⟩ := arm64MmuUnmap_spec h hroot hr
  rw [ha]
  refine ⟨s', h1, fun hu v hv hval hn l pte hl ht => ?_, fun hw => ⟨fun v hv => ?_, fun v hv hn => ?_, fun a he => ?_⟩⟩
  · -- the rest of the leaf is gone
    have h5 := hu.others v hv hn
    rw [archMmuQuery_eq h2 ha hv, archMmuQuery_eq h ha hv, if_pos hval, if_pos hval, h3 _ (page_lt hv), cut_some hl,
      if_pos ht, hl] at h5
    simp only [answer] at h5
    cases hq : queryFlags pte with
    | none =>
      rw [hq] at h5
      cases h5
    | some fl =>
      rw [hq] at h5
      cases h5
  · have hv48 : v < 2 ^ MMU_SIZE_SHIFT := Nat.lt_of_lt_of_le hv.2 hr
    rw [archMmuQuery_eq h2 ha hv48, if_pos (hin.valid hv), h3 _ (page_lt hv48)]
    cases hl : look s root (v / PAGE_SIZE) with
    | none =>
      rw [cut_none hl]
      rfl
    | some q =>
      obtain ⟨l, pte⟩ := q
      rw [cut_some hl, if_pos]
      · rfl
      · have hdiv := Nat.div_add_mod v (blockSize l)
        have hmod := Nat.mod_lt v (blockSize_pos l)
        rw [Nat.mul_comm] at hdiv
        obtain ⟨h5, h6⟩ := hv
        rw [Touches, ← block_div]
        refine ⟨by lia, ?_, ?_⟩
        · show v / blockSize l * blockSize l < vaddr + size
          lia
        · show vaddr < (v / blockSize l + 1) * blockSize l
          rw [Nat.succ_mul]
          lia
  · by_cases hval : isValidVaddr aspace v = true
    · apply look_query ha h h2 hv
      rw [h3 _ (page_lt hv)]
      cases hl : look s root (v / PAGE_SIZE) with
      | none => exact cut_none hl
      | some q => rw [cut_some (l := q.1) (q := q.2) hl, if_neg (hw v hv hval hn q.1 q.2 hl)]
    · rw [archMmuQuery_eq h2 ha hv, archMmuQuery_eq h ha hv, if_neg hval, if_neg hval]
  · obtain ⟨f, i, h5, h6, h7⟩ := h4 a he
    refine ⟨f, i, ?_, h6, h7⟩
    by_cases e : f = root
    · exact .inl (by rw [e, ha])
    · exact .inr (h.used f e h5)

/-- **Exactness**, from any tree of tables and after any calls: a range that was mapped is the only thing that
changed, and comes back as it was asked for, if its physical addresses have 48 bits; a range that was unmapped is
the only thing that changed if it does not touch a leaf that is larger. -/
theorem mmu_exact (h : TableTree s root lab) (hroot : root ≠ 0) {aspace : ArchAspace}
    (ha : aspace.ttVirt = PAGE_SIZE * root) (cs : List Call) (hcs : ∀ c ∈ cs, c.Ok) :
    ∃ s₁ lab₁, runCalls aspace s cs = some s₁ ∧ TableTree s₁ root lab₁ ∧
      (∀ vaddr paddr count flags s₂, paddr < 2 ^ 64 → aspace.Has vaddr (count * PAGE_SIZE) →
        arm64MmuMap s₁ vaddr paddr (count * PAGE_SIZE) (mmuFlagsToPteAttr flags) aspace.ttVirt = some (s₂, 0) →
        (MapExact aspace s₁ s₂ vaddr paddr (count * PAGE_SIZE) flags ↔
          (Expressible flags → ∀ k < count * PAGE_SIZE, paddr + k < 2 ^ 48))) ∧
      ∀ vaddr size, vaddr + size ≤ 2 ^ MMU_SIZE_SHIFT → aspace.Has vaddr size →
        ∃ s₂, arm64MmuUnmap s₁ vaddr size aspace.ttVirt = some (s₂, 0) ∧
          (UnmapExact aspace s₁ s₂ vaddr size ↔ WholeLeaves aspace s₁ root vaddr size) := by
  obtain ⟨s₁, lab₁, h1, h2⟩ := runCalls_tree ha hcs h
  refine ⟨s₁, lab₁, h1, h2, fun vaddr paddr count flags s₂ hp hin hs => ?_, fun vaddr size hr hin => ?_⟩
  · exact mapExact_iff h2 ha hp hin hs
  · exact unmapExact_iff h2 hroot ha hr hin

/-! ## a block -/

/-- an address space with its root in frame 1 -/
def kernelAspace : ArchAspace := ⟨PAGE_SIZE, true, 0, 2 ^ 48⟩

/-- an empty root, and free pages from frame 16 on -/
def emptyTables : Mmu := ⟨fun _ => 0, pmmAddArena Pmm.empty ⟨0x10000, 0x8000, 0, true, []⟩⟩

theorem emptyTables_tree : TableTree emptyTables 1 (rootOnly 1) := by
  apply TableTree.init
  · exact Pmm.empty_wf.addArena ⟨⟨16, rfl⟩, by decide, by decide⟩ (by simp [Pmm.empty])
  · rintro ⟨a, ha, h1, h2⟩
    obtain rfl := List.mem_singleton.mp ha
    exact absurd h1 (by decide)
  · exact fun _ _ => rfl

theorem emptyTables_exact : ∃ s₁ lab₁, runCalls kernelAspace emptyTables [.map 0 0x40000000 512 0] = some s₁ ∧
    TableTree s₁ 1 lab₁ ∧
      (∀ vaddr paddr count flags s₂, paddr < 2 ^ 64 → kernelAspace.Has vaddr (count * PAGE_SIZE) →
        arm64MmuMap s₁ vaddr paddr (count * PAGE_SIZE) (mmuFlagsToPteAttr flags) kernelAspace.ttVirt = some (s₂, 0) →
        (MapExact kernelAspace s₁ s₂ vaddr paddr (count * PAGE_SIZE) flags ↔
          (Expressible flags → ∀ k < count * PAGE_SIZE, paddr + k < 2 ^ 48))) ∧
      ∀ vaddr size, vaddr + size ≤ 2 ^ MMU_SIZE_SHIFT → kernelAspace.Has vaddr size →
        ∃ s₂, arm64MmuUnmap s₁ vaddr size kernelAspace.ttVirt = some (s₂, 0) ∧
          (UnmapExact kernelAspace s₁ s₂ vaddr size ↔ WholeLeaves kernelAspace s₁ 1 vaddr size) :=
  mmu_exact emptyTables_tree (by decide) rfl [.map 0 0x40000000 512 0]
    (fun c hc => by
      rw [List.mem_singleton.mp hc]
      show 0x40000000 < 2 ^ 64
      decide)

/-- 512 pages are mapped by one block, and the first of them is unmapped: the others are gone as well -/
theorem unmap_takes_block : ∃ s₁ s₂, runCalls kernelAspace emptyTables [.map 0 0x40000000 512 0] = some s₁ ∧
    arm64MmuUnmap s₁ 0 PAGE_SIZE kernelAspace.ttVirt = some (s₂, 0) ∧ ¬ UnmapExact kernelAspace s₁ s₂ 0 PAGE_SIZE := by
  have hok : ∀ c ∈ [Call.map 0 0x40000000 512 0], c.Ok := by
    intro c hc
    rw [List.mem_singleton.mp hc]
    show 0x40000000 < 2 ^ 64
    decide
  have ha : kernelAspace.ttVirt = PAGE_SIZE * 1 := rfl
  have hin : kernelAspace.Has 0 PAGE_SIZE := ⟨by decide, by decide, by decide, by decide⟩
  obtain ⟨s₁, lab₁, h1, h2⟩ := runCalls_tree ha hok emptyTables_tree
  obtain ⟨s₂, h3, h4⟩ := unmapExact_iff h2 Nat.one_ne_zero ha (by decide) hin
  refine ⟨s₁, s₂, h1, h3, fun hu => ?_⟩
  have hlook : (runCalls kernelAspace emptyTables [.map 0 0x40000000 512 0]).map (fun s => look s 1 1)
      = some (some (1, 0x40000709)) := by
    decide
  rw [h1, Option.map_some] at hlook
  refine h4.mp hu PAGE_SIZE (by decide) (by decide) (by rintro ⟨-, h⟩; exact absurd h (by decide)) 1 _
    (Option.some.inj hlook) (by decide)

/-! ## a map that fails -/

/-- the leaf that translates an address; above the 48 bits there is none -/
def translation (s : Mmu) (root v : Nat) : Option (Nat × Nat) :=
  if v < 2 ^ MMU_SIZE_SHIFT then look s root (v / PAGE_SIZE) else none

/-- **A failed `arm64_mmu_map` is undone**: it ends, and after an error every address has the translation that it had,
and `arch_mmu_query` answers what it answered. -/
theorem arm64MmuMap_undone (h : TableTree s root lab) {aspace : ArchAspace} (ha : aspace.ttVirt = PAGE_SIZE * root)
    (vaddr size flags : Nat) {paddr : Nat} (hp : paddr < 2 ^ 64) :
    ∃ s' ret, arm64MmuMap s vaddr paddr size (mmuFlagsToPteAttr flags) aspace.ttVirt = some (s', ret) ∧
      (ret ≠ 0 → (∀ v, translation s' root v = translation s root v) ∧
        ∀ v < 2 ^ MMU_SIZE_SHIFT, archMmuQuery s'.mem aspace v = archMmuQuery s.mem aspace v) := by
  obtain ⟨s', ret, lab', h1, h2, -, h3⟩ := arm64MmuMap_spec h vaddr size hp (attr_type flags)
  refine ⟨s', ret, ha ▸ h1, fun hret => ⟨fun v => ?_, fun v hv => ?_⟩⟩
  · unfold translation
    split
    · rename_i hv
      exact h3 hret _ (page_lt hv)
    · rfl
  · exact look_query ha h h2 hv (h3 hret _ (page_lt hv))

/-- an empty root, and four free pages -/
def fourPages : Mmu := ⟨fun _ => 0, pmmAddArena Pmm.empty ⟨0x10000, 0x4000, 0, true, []⟩⟩

theorem fourPages_tree : TableTree fourPages 1 (rootOnly 1) := by
  apply TableTree.init
  · exact Pmm.empty_wf.addArena ⟨⟨16, rfl⟩, by decide, by decide⟩ (by simp [Pmm.empty])
  · rintro ⟨a, ha, h1, h2⟩
    obtain rfl := List.mem_singleton.mp ha
    exact absurd h1 (by decide)
  · exact fun _ _ => rfl

/-- two pages on both sides of an entry of the root: each needs three tables, and there are four pages -/
theorem fourPages_undone : ∃ s' ret, ret ≠ 0 ∧
    arm64MmuMap fourPages 0x7ffffff000 0x40000000 0x2000 (mmuFlagsToPteAttr 0) kernelAspace.ttVirt = some (s', ret) ∧
      (∀ v, translation s' 1 v = translation fourPages 1 v) ∧
      ∀ v < 2 ^ MMU_SIZE_SHIFT, archMmuQuery s'.mem kernelAspace v = archMmuQuery fourPages.mem kernelAspace v := by
  have ha : kernelAspace.ttVirt = PAGE_SIZE * 1 := rfl
  have hp : 0x40000000 < 2 ^ 64 := by decide
  obtain ⟨s', ret, h1, h2⟩ := arm64MmuMap_undone fourPages_tree ha 0x7ffffff000 0x2000 0 hp
  have hret : (arm64MmuMap fourPages 0x7ffffff000 0x40000000 0x2000 (mmuFlagsToPteAttr 0) kernelAspace.ttVirt).map
      Prod.snd = some ERR_GENERIC := by
    decide +kernel
  rw [h1, Option.map_some] at hret
  have hgen : ret = ERR_GENERIC := Option.some.inj hret
  have hne : ret ≠ 0 := hgen ▸ by decide
  exact ⟨s', ret, hne, h1, h2 hne⟩

end Stage1
end LkHv
