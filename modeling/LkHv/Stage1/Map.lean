import LkHv.Stage1.Unmap

/-!
# `arm64_mmu_map_pt`

The function gives every page of its range a leaf, or none.

* `Maps`, `Maps.trans`, `Maps.undo`   the range is mapped; two ranges; what unmapping it again leaves;
* `put_spec`, `getPageTable_spec`     a leaf written, a table found or linked;
* `mapChunk_spec`, `mapLoop_spec`, `mapPt_spec`   a round, the loop and the function.
-/

namespace LkHv
namespace Stage1
open Radix

variable {root : Nat}

/-! ## the lookups of a mapped range -/

/-- `r` is a leaf for the page `k` of the range of `size` bytes from `a` on, mapped to `pa` on -/
def LeafOf (attrs a pa size k : Nat) (r : Option (Nat × Nat)) : Prop :=
  ∃ l b, r = some (l, b ||| attrs ||| leafDescriptor l) ∧
    a ≤ k / 512 ^ l * blockSize l ∧ (k / 512 ^ l + 1) * blockSize l ≤ a + size ∧
    b = add64 pa (k / 512 ^ l * blockSize l - a) ∧ blockSize l ∣ b

/-- the range was free and is mapped, and the other pages are as before -/
def Maps (attrs a pa size : Nat) (w w' : Nat → Option (Nat × Nat)) : Prop :=
  ∀ k < PAGES, if a ≤ PAGE_SIZE * k ∧ PAGE_SIZE * k < a + size then w k = none ∧ LeafOf attrs a pa size k (w' k)
    else w' k = w k

section maps
variable {attrs a pa c r : Nat} {w w₁ w₂ : Nat → Option (Nat × Nat)}

theorem Maps.none (h : ∀ k < PAGES, w₁ k = w k) : Maps attrs a pa 0 w w₁ := by
  intro k hk
  rw [if_neg (by omega)]
  exact h k hk

theorem LeafOf.mono {k : Nat} {q : Option (Nat × Nat)} (h : LeafOf attrs a pa c k q) :
    LeafOf attrs a pa (c + r) k q := by
  obtain ⟨l, b, h1, h2, h3, h4, h5⟩ := h
  exact ⟨l, b, h1, h2, by omega, h4, h5⟩

theorem LeafOf.shift {k : Nat} {q : Option (Nat × Nat)} (h : LeafOf attrs (a + c) (add64 pa c) r k q) :
    LeafOf attrs a pa (c + r) k q := by
  obtain ⟨l, b, h1, h2, h3, h4, h5⟩ := h
  refine ⟨l, b, h1, by omega, by omega, ?_, h5⟩
  rw [h4, add64, add64, add64, Nat.mod_add_mod]
  congr 1
  omega

/-- one range after the other -/
theorem Maps.trans (h : Maps attrs a pa c w w₁) (h' : Maps attrs (a + c) (add64 pa c) r w₁ w₂) :
    Maps attrs a pa (c + r) w w₂ := by
  intro k hk
  have h1 := h k hk
  have h2 := h' k hk
  by_cases e1 : a ≤ PAGE_SIZE * k ∧ PAGE_SIZE * k < a + c
  · rw [if_pos e1] at h1
    rw [if_neg (by omega)] at h2
    rw [if_pos (by omega), h2]
    exact ⟨h1.1, h1.2.mono⟩
  · rw [if_neg e1] at h1
    by_cases e2 : a + c ≤ PAGE_SIZE * k ∧ PAGE_SIZE * k < a + c + r
    · rw [if_pos e2] at h2
      rw [if_pos (by omega), ← h1]
      exact ⟨h2.1, h2.2.shift⟩
    · rw [if_neg e2] at h2
      rw [if_neg (by omega), h2, h1]

/-- **Unmapping the range again** leaves what there was. -/
theorem Maps.undo (h : Maps attrs a pa c w w₁) (ha : PAGE_SIZE ∣ a) (hmax : a + c ≤ PAGE_SIZE * PAGES)
    (hw : ∀ {k k' l q}, w k = some (l, q) → k / 512 ^ l = k' / 512 ^ l → w k' = some (l, q)) {k : Nat}
    (hk : k < PAGES) : cut PAGE_SIZE 512 w₁ a c k = w k := by
  have h1 := h k hk
  by_cases e : a ≤ PAGE_SIZE * k ∧ PAGE_SIZE * k < a + c
  · -- a page of the range: its leaf meets the range
    rw [if_pos e] at h1
    obtain ⟨h2, l, b, h3, h4, h5, -⟩ := h1
    have hpos := blockSize_pos l
    rw [cut_some h3, h2, if_pos]
    refine ⟨by omega, ?_, ?_⟩
    · show k / 512 ^ l * blockSize l < a + c
      rw [Nat.succ_mul] at h5
      omega
    · show a < (k / 512 ^ l + 1) * blockSize l
      rw [Nat.succ_mul]
      omega
  · rw [if_neg e] at h1
    cases hq : w k with
    | none => exact cut_none (h1.trans hq)
    | some q =>
      obtain ⟨l, q⟩ := q
      rw [cut_some (h1.trans hq), if_neg]
      rintro ⟨hc0, h2, h4⟩
      -- the leaf would be the leaf of a page of the range, which had none
      have hpos := blockSize_pos l
      have hone : blockSize l = PAGE_SIZE * 512 ^ l := rfl
      have hmul : k / 512 ^ l * blockSize l = PAGE_SIZE * (k / 512 ^ l * 512 ^ l) := by
        rw [hone]
        exact Nat.mul_left_comm _ _ _
      obtain ⟨m, rfl⟩ := ha
      have key : ∀ k', k / 512 ^ l = k' / 512 ^ l → PAGE_SIZE * m ≤ PAGE_SIZE * k' →
          PAGE_SIZE * k' < PAGE_SIZE * m + c → False := by
        intro k' e1 e2 e3
        have hk' : k' < PAGES := Nat.lt_of_mul_lt_mul_left (Nat.lt_of_lt_of_le e3 hmax)
        have h5 := h k' hk'
        rw [if_pos ⟨e2, e3⟩] at h5
        have h6 := hw hq e1
        rw [h5.1] at h6
        cases h6
      rcases Nat.le_total (PAGE_SIZE * m) (k / 512 ^ l * blockSize l) with h5 | h5
      · apply key (k / 512 ^ l * 512 ^ l)
        · rw [Nat.mul_div_cancel _ (Nat.pow_pos (by decide))]
        · rw [← hmul]
          exact h5
        · rw [← hmul]
          exact h2
      · apply key m _ le_rfl (by omega)
        have h6 : (k / 512 ^ l + 1) * blockSize l = PAGE_SIZE * ((k / 512 ^ l + 1) * 512 ^ l) := by
          rw [hone]
          exact Nat.mul_left_comm _ _ _
        change PAGE_SIZE * m < (k / 512 ^ l + 1) * blockSize l at h4
        rw [h6] at h4
        rw [hmul] at h5
        exact (Nat.div_eq_of_lt_le (Nat.le_of_mul_le_mul_left h5 (by decide))
          (Nat.lt_of_mul_lt_mul_left h4)).symm

end maps

/-! ## tables -/

/-- the labels of the tables above, and of the table itself -/
structure Kept (n f : Nat) (lab lab' : Nat → Option (Label Unit)) : Prop where
  above : ∀ g l q, lab g = some ⟨(), l, q⟩ → n < l → lab' g = lab g
  self : lab' f = lab f

theorem Kept.refl (n f : Nat) (lab : Nat → Option (Label Unit)) : Kept n f lab lab := ⟨fun _ _ _ _ _ => rfl, rfl⟩

theorem Kept.trans {n f : Nat} {lab lab₁ lab₂ : Nat → Option (Label Unit)} (h : Kept n f lab lab₁)
    (h' : Kept n f lab₁ lab₂) : Kept n f lab lab₂ where
  above g l q hg hl := by
    have h1 := h.above g l q hg hl
    exact (h'.above g l q (h1.trans hg) hl).trans h1
  self := h'.self.trans h.self

/-- what the call for a table below keeps -/
theorem Kept.up {m f g p : Nat} {lab lab' : Nat → Option (Label Unit)} (h : Kept m g lab lab')
    (hf : lab f = some ⟨(), m + 1, p⟩) : Kept (m + 1) f lab lab' where
  above x l q hx hl := h.above x l q hx (by omega)
  self := h.above f _ _ hf (Nat.lt_succ_self m)

theorem Unmapped.kept {n f p rel size : Nat} {s s' : Mmu} {lab lab' : Nat → Option (Label Unit)}
    (h : Unmapped root n f p rel size s lab s' lab') : Kept n f lab lab' :=
  ⟨fun g l q hg hl => (h.above g l q hg hl).1, h.self⟩

/-- the range of a labelled table is below 2^48 -/
theorem TableTree.covers {s : Mmu} {lab : Nat → Option (Label Unit)} (h : TableTree s root lab) {f n p : Nat}
    (hf : lab f = some ⟨(), n, p⟩) : p * blockSize (n + 1) + blockSize (n + 1) ≤ PAGE_SIZE * PAGES := by
  obtain ⟨h1, h2, -⟩ := h.linked f () n p hf
  have h3 : p * 512 ^ (n + 1) < PAGES := by
    rw [Nat.div_eq_zero_iff] at h1
    exact h1.resolve_left (by decide)
  obtain ⟨d, hd⟩ := Nat.exists_eq_add_of_le (Nat.succ_le_succ h2)
  have h4 : PAGES = 512 ^ d * 512 ^ (n + 1) := by
    rw [PAGES, show topLevel + 1 = n + 1 + d from hd, Nat.pow_add, Nat.mul_comm]
  rw [h4] at h3
  have h5 : p + 1 ≤ 512 ^ d := Nat.lt_of_mul_lt_mul_right h3
  rw [← Nat.succ_mul, blockSize, h4, Nat.mul_left_comm]
  exact Nat.mul_le_mul_left _ (Nat.mul_le_mul_right _ h5)

/-- the leaf that `arm64_mmu_map_pt` writes -/
theorem leaf_type {n pa attrs : Nat} (hpa : PAGE_SIZE ∣ pa) (hattrs : attrs &&& MMU_PTE_DESCRIPTOR_MASK = 0) :
    (pa ||| attrs ||| leafDescriptor n) &&& MMU_PTE_DESCRIPTOR_MASK = leafDescriptor n := by
  have h1 : pa &&& MMU_PTE_DESCRIPTOR_MASK = 0 := by
    obtain ⟨m, rfl⟩ := hpa
    rw [show MMU_PTE_DESCRIPTOR_MASK = 2 ^ 2 - 1 from rfl, Nat.and_two_pow_sub_one_eq_mod, PAGE_SIZE]
    lia
  have h2 : leafDescriptor n &&& MMU_PTE_DESCRIPTOR_MASK = leafDescriptor n := by
    unfold leafDescriptor
    split <;> decide
  rw [Nat.and_or_distrib_right, Nat.and_or_distrib_right, h1, hattrs, h2, Nat.zero_or, Nat.zero_or]

/-- **A leaf** is written for a range that fills an entry. -/
theorem put_spec {s : Mmu} {lab : Nat → Option (Label Unit)} (h : TableTree s root lab) {attrs f n p rel pa : Nat}
    (hattrs : attrs &&& MMU_PTE_DESCRIPTOR_MASK = 0) (hf : lab f = some ⟨(), n, p⟩)
    (hsize : rel + blockSize n ≤ blockSize (n + 1)) (hrel : rel % blockSize n = 0) (hpa : pa % blockSize n = 0)
    (hlt : pa < 2 ^ 64) (h0 : s.mem (pteAddr f (rel / blockSize n)) = 0) :
    TableTree (s.write (pteAddr f (rel / blockSize n)) (pa ||| attrs ||| leafDescriptor n)) root lab ∧
      Maps attrs (p * blockSize (n + 1) + rel) pa (blockSize n) (look s root)
        (look (s.write (pteAddr f (rel / blockSize n)) (pa ||| attrs ||| leafDescriptor n)) root) := by
  have hpos := blockSize_pos n
  have hi : rel / blockSize n < 512 := by
    rw [Nat.div_lt_iff_lt_mul hpos, Nat.mul_comm, ← blockSize_succ]
    omega
  have hpage : PAGE_SIZE ∣ pa := Nat.dvd_trans (Nat.dvd_mul_right _ _) (Nat.dvd_of_mod_eq_zero hpa)
  have ht := leaf_type (n := n) hpage hattrs
  have hempty : descView n (s.mem (pteAddr f (rel / blockSize n))) = .empty := by
    rw [h0]
    exact descView_zero n
  have hold : ∀ g, descView n (s.mem (pteAddr f (rel / blockSize n))) ≠ .table g := by
    intro g
    rw [hempty]
    nofun
  have hoff : AgreeOff 512 (descStore s.mem) (descStore (s.write (pteAddr f (rel / blockSize n))
      (pa ||| attrs ||| leafDescriptor n)).mem) f (rel / blockSize n) :=
    descStore_off hi fun a ha => write_off s _ ha
  have hself : AgreeOff 512 (descStore s.mem) (descStore s.mem) f (rel / blockSize n) := fun _ _ _ _ _ => rfl
  constructor
  · refine h.write hf hi hold (fun g => ?_) (.inr (.inl ht))
    rw [descView_leaf ht]
    nofun
  · intro k hk
    have hput := walk_put h.linked h.forest (by decide) h.roots hf hi hempty hoff
      (by rw [descStore, write_self]; exact descView_leaf ht) (div_PAGES hk)
    have hnone := walk_clear h.linked h.forest (by decide) h.roots hf hi hold hself hempty (div_PAGES hk)
    change look _ root k = _ at hput
    change look s root k = _ at hnone
    have ha : p * blockSize (n + 1) + rel = (p * 512 + rel / blockSize n) * blockSize n := by
      rw [rel_split, hrel, Nat.add_zero]
    -- the pages of the range are those of the entry
    have hiff : (p * blockSize (n + 1) + rel ≤ PAGE_SIZE * k ∧
        PAGE_SIZE * k < p * blockSize (n + 1) + rel + blockSize n) ↔ k / 512 ^ n = p * 512 + rel / blockSize n := by
      rw [ha, ← Nat.succ_mul, ← Nat.mul_div_mul_left k (512 ^ n) (show 0 < PAGE_SIZE by decide)]
      show _ ↔ PAGE_SIZE * k / blockSize n = _
      rw [Nat.div_eq_iff hpos]
      constructor
      · rintro ⟨h1, h2⟩
        rw [Nat.succ_mul] at h2
        omega
      · rintro ⟨h1, h2⟩
        rw [Nat.succ_mul]
        omega
    by_cases e : k / 512 ^ n = p * 512 + rel / blockSize n
    · rw [if_pos e] at hput hnone
      rw [if_pos (hiff.mpr e)]
      refine ⟨hnone, n, pa, hput, ?_, ?_, ?_, Nat.dvd_of_mod_eq_zero hpa⟩
      · rw [e, ha]
      · rw [e, ha, Nat.succ_mul]
      · rw [e, ha, Nat.sub_self, add64, Nat.add_zero, Nat.mod_eq_of_lt hlt]
    · rw [if_neg e] at hput
      rw [if_neg (mt hiff.mp e)]
      exact hput

/-! ## `arm64_mmu_get_page_table` -/

/-- the allocator gives out pages that are not in use -/
theorem TableTree.takes {s : Mmu} {lab : Nat → Option (Label Unit)} (h : TableTree s root lab) {pmm : Pmm}
    {pgs : List Nat} (ht : s.pmm.Takes pmm pgs) : TableTree { s with pmm } root lab where
  pmm := ht.wf
  rootLab := h.rootLab
  rootPage hr := by
    rw [ht.nonfree, setNonfree, h.rootPage ((ht.ram root).mp hr), Bool.true_or]
  used f hf hl := by
    obtain ⟨h1, h2⟩ := h.used f hf hl
    refine ⟨(ht.ram f).mpr h1, ?_⟩
    rw [ht.nonfree, setNonfree, h2, Bool.true_or]
  forest := h.forest
  linked := h.linked
  plain := h.plain

/-- a free page has no label -/
theorem TableTree.unlabelled {s : Mmu} {lab : Nat → Option (Label Unit)} (h : TableTree s root lab) {g : Nat}
    (hr : s.pmm.Ram g) (hn : s.pmm.nonfree g = false) : lab g = none := by
  by_contra hl
  by_cases e : g = root
  · rw [e, h.rootPage (e ▸ hr)] at hn
    cases hn
  · rw [(h.used g e hl).2] at hn
    cases hn

theorem table_desc {g : Nat} (hg : g < 2 ^ 36) :
    (PAGE_SIZE * g ||| MMU_PTE_L012_DESCRIPTOR_TABLE) &&& MMU_PTE_DESCRIPTOR_MASK = MMU_PTE_L012_DESCRIPTOR_TABLE ∧
      outPage (PAGE_SIZE * g ||| MMU_PTE_L012_DESCRIPTOR_TABLE) = g := by
  constructor
  · have h1 : (PAGE_SIZE * g ||| 0 ||| leafDescriptor 0) &&& MMU_PTE_DESCRIPTOR_MASK = leafDescriptor 0 :=
      leaf_type (Nat.dvd_mul_right _ _) (Nat.zero_and _)
    rwa [Nat.or_zero] at h1
  · rw [Nat.or_comm, outPage_or (by decide), Nat.mul_div_cancel_left _ (by decide), Nat.mod_eq_of_lt hg]

/-- **A new table** changes no lookup. -/
theorem link_spec {s : Mmu} {lab : Nat → Option (Label Unit)} (h : TableTree s root lab) {f m p i g : Nat}
    (hf : lab f = some ⟨(), m + 1, p⟩) (hi : i < 512)
    (hinv : s.mem (pteAddr f i) &&& MMU_PTE_DESCRIPTOR_MASK = MMU_PTE_DESCRIPTOR_INVALID) {pmm : Pmm}
    (ht : s.pmm.Takes pmm [g]) {s' : Mmu} (hs' : s' = (Mmu.clearPage { s with pmm } g).write (pteAddr f i)
      (PAGE_SIZE * g ||| MMU_PTE_L012_DESCRIPTOR_TABLE)) :
    TableTree s' root (Function.update lab g (some ⟨(), m, p * 512 + i⟩)) ∧ lab g = none ∧
      ∀ k < PAGES, look s' root k = look s root k := by
  obtain ⟨hram, hfree⟩ := ht.free g (by simp)
  have hg := h.unlabelled hram hfree
  have ht' := h.takes ht
  obtain ⟨hd1, hd2⟩ := table_desc (h.pmm.ram_lt hram).2
  have hne : ∀ {x q}, lab x = some q → x ≠ g := by
    rintro x q hx rfl
    rw [hg] at hx
    cases hx
  have hnow : s'.mem (pteAddr f i) = PAGE_SIZE * g ||| MMU_PTE_L012_DESCRIPTOR_TABLE := by
    rw [hs', write_self]
  have hclear : ∀ j < 512, s'.mem (pteAddr g j) = MMU_PTE_DESCRIPTOR_INVALID := by
    intro j hj
    rw [hs', write_off _ _ fun e => hne hf (pteAddr_inj hj hi e).1.symm]
    exact if_pos (pteAddr_page hj)
  have hsame : ∀ x j, j < 512 → x ≠ g → ¬ (x = f ∧ j = i) → s'.mem (pteAddr x j) = s.mem (pteAddr x j) := by
    intro x j hj hx hn
    rw [hs', write_off _ _ fun e => hn (pteAddr_inj hj hi e)]
    exact if_neg (by rwa [pteAddr_page hj])
  have hI : Installs 512 (descStore s.mem) (descStore s'.mem) m f i g := by
    refine ⟨descView_invalid hinv, ?_, fun l j hj => ?_, fun l x j hj hx hn => ?_⟩
    · rw [descStore, hnow, descView_table hd1, hd2]
    · rw [descStore, hclear j hj, descView_zero]
    · rw [descStore, descStore, hsame x j hj hx hn]
  refine ⟨⟨?_, ?_, ?_, fun x hx hl => ?_, ?_, ?_, fun x l q hx j hj => ?_⟩, hg, fun k hk => ?_⟩
  · rw [hs']
    exact ht'.pmm
  · rw [Function.update_of_ne (hne h.rootLab)]
    exact h.rootLab
  · rw [hs']
    exact ht'.rootPage
  · rw [hs']
    by_cases e : x = g
    · rw [e]
      refine ⟨(ht.ram g).mpr hram, ?_⟩
      show pmm.nonfree g = true
      rw [ht.nonfree, setNonfree]
      simp
    · rw [Function.update_of_ne e] at hl
      exact ht'.used x hx hl
  · exact h.forest.install hf hg hI
  · exact h.linked.install h.forest (by decide) h.roots hi hf hg hI
  · by_cases e : x = g
    · rw [e, hclear j hj]
      exact plain_invalid l
    · rw [Function.update_of_ne e] at hx
      by_cases e' : x = f ∧ j = i
      · obtain ⟨rfl, rfl⟩ := e'
        rw [hf] at hx
        cases hx
        rw [hnow]
        exact .inr (.inr ⟨by omega, hd1⟩)
      · rw [hsame x j hj e e']
        exact h.plain x l q hx j hj
  · apply walk_install h.forest (by decide) hf hg hI (t := ())
    rw [div_PAGES hk, h.rootLab]

/-- **A table below**: the one that is there, a new one, or none. -/
theorem getPageTable_spec {s : Mmu} {lab : Nat → Option (Label Unit)} (h : TableTree s root lab) {f m p i : Nat}
    (hf : lab f = some ⟨(), m + 1, p⟩) (hi : i < 512) :
    ∃ s' r lab', getPageTable s i (PAGE_SIZE * f) = some (s', r) ∧ TableTree s' root lab' ∧
      Kept (m + 1) f lab lab' ∧ (∀ k < PAGES, look s' root k = look s root k) ∧
      ∀ a, r = some a → ∃ g, a = PAGE_SIZE * g ∧ lab' g = some ⟨(), m, p * 512 + i⟩ := by
  have haddr : PAGE_SIZE * f + 8 * i = pteAddr f i := rfl
  rw [getPageTable]
  simp only [haddr]
  rcases h.plain f (m + 1) p hf i hi with hp | hp | hp
  · rw [if_pos hp, allocPageTable]
    rcases h.pmm.allocPage with ⟨g, h1, h2, -⟩ | ⟨h1, h2, -⟩
    · simp only [h1, Option.map_some, Nat.mul_div_cancel_left g (show 0 < PAGE_SIZE by decide)]
      obtain ⟨h3, h4, h5⟩ := link_spec h hf hi hp h2 rfl
      have hne : ∀ {x q}, lab x = some q → x ≠ g := by
        rintro x q hx rfl
        rw [h4] at hx
        cases hx
      refine ⟨_, _, _, rfl, h3, ⟨fun x l q hx _ => ?_, ?_⟩, h5, fun a ha => ?_⟩
      · rw [Function.update_of_ne (hne hx)]
      · rw [Function.update_of_ne (hne hf)]
      · cases ha
        exact ⟨g, rfl, Function.update_self _ _ _⟩
    · simp only [h1, Option.map_none]
      exact ⟨_, none, lab, rfl, h.takes h2, Kept.refl _ _ _, fun _ _ => rfl,
        fun _ ha => absurd ha.symm (Option.some_ne_none _)⟩
  · rw [hp, leafDescriptor_succ]
    exact ⟨s, none, lab, rfl, h, Kept.refl _ _ _, fun _ _ => rfl, fun _ ha => absurd ha.symm (Option.some_ne_none _)⟩
  · rw [hp.2]
    refine ⟨s, _, lab, rfl, h, Kept.refl _ _ _, fun _ _ => rfl, fun a ha => ?_⟩
    cases ha
    exact ⟨_, outputAddr_eq _, h.child hf hi hp.2⟩

/-! ## the loop -/

/-- what the function does in a table of level `n` -/
def MapSpec (root attrs n : Nat) (map : Mmu → Nat → Nat → Nat → Nat → Option (Mmu × Int)) : Prop :=
  ∀ s lab f p rel pa size, TableTree s root lab → lab f = some ⟨(), n, p⟩ → rel + size ≤ blockSize (n + 1) →
    pa < 2 ^ 64 →
    ∃ s' ret lab', map s rel pa size (PAGE_SIZE * f) = some (s', ret) ∧ TableTree s' root lab' ∧ Kept n f lab lab' ∧
      (ret = 0 → Maps attrs (p * blockSize (n + 1) + rel) pa size (look s root) (look s' root)) ∧
      (ret ≠ 0 → ∀ k < PAGES, look s' root k = look s root k)

theorem or_and_block (n x y : Nat) :
    (x ||| y) &&& (1 <<< indexShift n - 1) = 0 ↔ x % blockSize n = 0 ∧ y % blockSize n = 0 := by
  rw [Nat.and_or_distrib_right, Nat.or_eq_zero_iff, and_block, and_block]

theorem page_block (n : Nat) : PAGE_SIZE ∣ blockSize n := Nat.dvd_mul_right _ _

/-- aligned ranges are cut into aligned parts -/
theorem chunk_aligned {n rel size : Nat} (hr : PAGE_SIZE ∣ rel) (hs : PAGE_SIZE ∣ size) :
    PAGE_SIZE ∣ chunkSize n rel size := by
  rw [chunkSize_eq]
  rcases Nat.le_total size (blockSize n - rel % blockSize n) with h | h
  · rwa [Nat.min_eq_left h]
  · rw [Nat.min_eq_right h]
    exact Nat.dvd_sub (page_block n) ((Nat.dvd_mod_iff (page_block n)).mpr hr)

/-- a round at level 0 fills its entry -/
theorem chunk_page {rel size : Nat} (hs : 0 < size) (hr : PAGE_SIZE ∣ rel) (hd : PAGE_SIZE ∣ size) :
    chunkSize 0 rel size = blockSize 0 := by
  have h1 : rel % blockSize 0 = 0 := Nat.mod_eq_zero_of_dvd hr
  have h2 : blockSize 0 ≤ size := Nat.le_of_dvd hs hd
  rw [chunkSize_eq, h1]
  lia

/-- **One round** -/
theorem mapChunk_spec {sub : Mmu → Nat → Nat → Nat → Nat → Option (Mmu × Int)} {attrs n : Nat}
    (hattrs : attrs &&& MMU_PTE_DESCRIPTOR_MASK = 0) (hsub : ∀ m, n = m + 1 → MapSpec root attrs m sub) {s : Mmu}
    {lab : Nat → Option (Label Unit)} {f p rel pa size : Nat} (h : TableTree s root lab)
    (hf : lab f = some ⟨(), n, p⟩) (hs : 0 < size) (hsize : rel + size ≤ blockSize (n + 1)) (hlt : pa < 2 ^ 64)
    (hrel : PAGE_SIZE ∣ rel) (hpa : PAGE_SIZE ∣ pa) (hd : PAGE_SIZE ∣ size) :
    ∃ s' more lab', mapChunk sub attrs n (PAGE_SIZE * f) s rel pa (chunkSize n rel size) = some (s', more) ∧
      TableTree s' root lab' ∧ Kept n f lab lab' ∧
      (more = true → Maps attrs (p * blockSize (n + 1) + rel) pa (chunkSize n rel size) (look s root)
        (look s' root)) ∧ (more = false → ∀ k < PAGES, look s' root k = look s root k) := by
  have hc := chunk_inEntry hs hsize
  have haddr : PAGE_SIZE * f + 8 * (rel / blockSize n) = pteAddr f (rel / blockSize n) := rfl
  rw [mapChunk]
  simp only [shiftRight_block, vaddrRem_eq, haddr]
  by_cases hcond : (rel ||| pa) &&& (1 <<< indexShift n - 1) ≠ 0 ∨ chunkSize n rel size ≠ 1 <<< indexShift n ∨
      indexShift n > MMU_PTE_DESCRIPTOR_BLOCK_MAX_SHIFT
  · -- a table below
    rw [if_pos hcond]
    obtain ⟨m, rfl⟩ : ∃ m, n = m + 1 := by
      apply Nat.exists_eq_succ_of_ne_zero
      rintro rfl
      rcases hcond with hcond | hcond | hcond
      · exact hcond ((or_and_block 0 rel pa).mpr ⟨Nat.mod_eq_zero_of_dvd hrel, Nat.mod_eq_zero_of_dvd hpa⟩)
      · exact hcond ((chunk_page hs hrel hd).trans (shift_block 0).symm)
      · exact absurd hcond (by decide)
    obtain ⟨s₁, r, lab₁, h1, h2, h3, h4, h5⟩ := getPageTable_spec h hf hc.index
    rw [h1, Option.bind_some]
    cases r with
    | none => exact ⟨s₁, false, lab₁, rfl, h2, h3, fun hf => absurd hf Bool.false_ne_true, fun _ => h4⟩
    | some a =>
      obtain ⟨g, rfl, hg⟩ := h5 a rfl
      obtain ⟨s₂, ret, lab₂, h6, h7, h8, h9, h10⟩ := hsub m rfl s₁ lab₁ g _ (rel % blockSize (m + 1)) pa
        (chunkSize (m + 1) rel size) h2 hg (chunk_below _ _ _) hlt
      simp only [h6, Option.map_some]
      refine ⟨s₂, _, lab₂, rfl, h7, h3.trans (h8.up (h3.self.trans hf)), fun hret => ?_, fun hret k hk => ?_⟩
      · have hm := h9 (of_decide_eq_true hret)
        rw [rel_split (m + 1)]
        intro k hk
        rw [← h4 k hk]
        exact hm k hk
      · rw [h10 (of_decide_eq_false hret) k hk, h4 k hk]
  · rw [if_neg hcond]
    obtain ⟨hc1, hc2⟩ := not_or.mp hcond
    obtain ⟨hm1, hm2⟩ := (or_and_block n rel pa).mp (not_not.mp hc1)
    have hc3 := not_not.mp (not_or.mp hc2).1
    rw [shift_block] at hc3
    by_cases h0 : s.mem (pteAddr f (rel / blockSize n)) ≠ 0
    · rw [if_pos h0]
      exact ⟨s, false, lab, rfl, h, Kept.refl _ _ _, fun hf => absurd hf Bool.false_ne_true, fun _ _ _ => rfl⟩
    · rw [if_neg h0, hc3]
      have hle := chunk_le n rel size
      obtain ⟨h1, h2⟩ := put_spec h hattrs hf (by lia) hm1 hm2 hlt (not_not.mp h0)
      exact ⟨_, true, lab, rfl, h1, Kept.refl _ _ _, fun _ => h2, fun hf => absurd hf.symm Bool.false_ne_true⟩

/-- **The loop** -/
theorem mapLoop_spec {sub : Mmu → Nat → Nat → Nat → Nat → Option (Mmu × Int)} {attrs n : Nat}
    (hattrs : attrs &&& MMU_PTE_DESCRIPTOR_MASK = 0) (hsub : ∀ m, n = m + 1 → MapSpec root attrs m sub) {f p : Nat} :
    ∀ {rounds : Nat} {s : Mmu} {lab : Nat → Option (Label Unit)} (rel pa size : Nat), TableTree s root lab →
      lab f = some ⟨(), n, p⟩ → rel + size ≤ blockSize (n + 1) → pa < 2 ^ 64 → PAGE_SIZE ∣ rel → PAGE_SIZE ∣ pa →
      PAGE_SIZE ∣ size → size = 0 ∨ 512 ≤ rounds + rel / blockSize n →
      ∃ s' rest lab', mapLoop sub attrs n (PAGE_SIZE * f) rounds s rel pa size = some (s', rest) ∧
        TableTree s' root lab' ∧ Kept n f lab lab' ∧ rest ≤ size ∧
        Maps attrs (p * blockSize (n + 1) + rel) pa (size - rest) (look s root) (look s' root) := by
  intro rounds
  induction rounds with
  | zero =>
    intro s lab rel pa size h hf hsize _ _ _ _ hr
    have h0 : size = 0 := by
      rcases hr with h0 | hr
      · exact h0
      · by_contra hne
        have := (chunk_inEntry (Nat.pos_of_ne_zero hne) hsize).index
        omega
    rw [h0, mapLoop]
    exact ⟨s, 0, lab, rfl, h, Kept.refl _ _ _, le_rfl, Maps.none fun _ _ => rfl⟩
  | succ rounds ih =>
    intro s lab rel pa size h hf hsize hlt hrel hpa hd hr
    rw [mapLoop]
    by_cases h0 : size = 0
    · rw [if_pos h0, h0]
      exact ⟨s, 0, lab, rfl, h, Kept.refl _ _ _, le_rfl, Maps.none fun _ _ => rfl⟩
    · rw [if_neg h0]
      obtain ⟨s₁, more, lab₁, h1, h2, h3, h4, h5⟩ :=
        mapChunk_spec hattrs hsub h hf (Nat.pos_of_ne_zero h0) hsize hlt hrel hpa hd
      simp only [h1, Option.bind_some]
      cases more with
      | false =>
        refine ⟨s₁, size, lab₁, rfl, h2, h3, le_rfl, ?_⟩
        rw [Nat.sub_self]
        exact Maps.none (h5 rfl)
      | true =>
        have hle := chunk_le n rel size
        have hend := chunk_end n rel size
        have hca := chunk_aligned (n := n) hrel hd
        obtain ⟨s₂, rest, lab₂, h6, h7, h8, h9, h10⟩ := ih (rel + chunkSize n rel size)
          (add64 pa (chunkSize n rel size)) (size - chunkSize n rel size) h2 (h3.self.trans hf) (by omega) (Nat.mod_lt _ (by decide)) (Nat.dvd_add hrel hca)
          ((Nat.dvd_mod_iff (by decide)).mpr (Nat.dvd_add hpa hca)) (Nat.dvd_sub hd hca) (by
            rcases hend with he | he
            · left
              omega
            · right
              rw [he, Nat.mul_div_cancel _ (blockSize_pos n)]
              omega)
        refine ⟨s₂, rest, lab₂, h6, h7, h3.trans h8, by omega, ?_⟩
        rw [← Nat.add_assoc] at h10
        have h11 := (h4 rfl).trans h10
        rwa [show chunkSize n rel size + (size - chunkSize n rel size - rest) = size - rest by omega] at h11

/-- **The body** of `arm64_mmu_map_pt`; what a failed call has mapped is unmapped again. -/
theorem mapBody_spec {sub : Mmu → Nat → Nat → Nat → Nat → Option (Mmu × Int)} {attrs n : Nat}
    (hattrs : attrs &&& MMU_PTE_DESCRIPTOR_MASK = 0) (hsub : ∀ m, n = m + 1 → MapSpec root attrs m sub) :
    MapSpec root attrs n (mapBody sub attrs n) := by
  intro s lab f p rel pa size h hf hsize hlt
  rw [mapBody]
  have hal : (rel ||| pa ||| size) &&& (1 <<< PAGE_SIZE_SHIFT - 1) = 0 ↔
      (PAGE_SIZE ∣ rel ∧ PAGE_SIZE ∣ pa) ∧ PAGE_SIZE ∣ size := by
    have e1 := or_and_block 0 (rel ||| pa) size
    have e2 := or_and_block 0 rel pa
    rw [and_block] at e2
    rw [Nat.dvd_iff_mod_eq_zero, Nat.dvd_iff_mod_eq_zero, Nat.dvd_iff_mod_eq_zero]
    exact e1.trans (and_congr_left' e2)
  by_cases ha : (rel ||| pa ||| size) &&& (1 <<< PAGE_SIZE_SHIFT - 1) ≠ 0
  · rw [if_pos ha]
    exact ⟨s, _, lab, rfl, h, Kept.refl _ _ _, nofun, fun _ _ _ => rfl⟩
  · rw [if_neg ha]
    obtain ⟨⟨hrel, hpa⟩, hd⟩ := hal.mp (not_not.mp ha)
    obtain ⟨s₁, rest, lab₁, h1, h2, h3, h4, h5⟩ :=
      mapLoop_spec hattrs hsub rel pa size h hf hsize hlt hrel hpa hd (.inr (Nat.le_add_right 512 _))
    rw [h1, Option.bind_some]
    by_cases h0 : rest = 0
    · rw [if_pos h0]
      rw [h0, Nat.sub_zero] at h5
      exact ⟨s₁, 0, lab₁, rfl, h2, h3, fun _ => h5, fun hn => absurd rfl hn⟩
    · rw [if_neg h0]
      obtain ⟨s₂, lab₂, h6, h7⟩ := unmapPt_spec root n s₁ lab₁ f p rel (size - rest) h2 (h3.self.trans hf)
        (by omega)
      rw [h6, Option.map_some]
      refine ⟨s₂, _, lab₂, rfl, h7.tree, h3.trans h7.kept, nofun, fun _ k hk => ?_⟩
      have hcov := h.covers hf
      rw [h7.cuts k hk]
      refine h5.undo (Nat.dvd_add ?_ hrel) (by omega) (fun hq e => walk_leaf_congr hq e) hk
      exact Nat.dvd_trans (page_block _) (Nat.dvd_mul_left _ _)

/-- **`arm64_mmu_map_pt`** -/
theorem mapPt_spec (root : Nat) {attrs : Nat} (hattrs : attrs &&& MMU_PTE_DESCRIPTOR_MASK = 0) :
    ∀ n, MapSpec root attrs n (mapPt attrs n) := by
  intro n
  induction n with
  | zero =>
    rw [mapPt]
    exact mapBody_spec hattrs fun m hm => by cases hm
  | succ n ih =>
    rw [mapPt]
    refine mapBody_spec hattrs fun m hm => ?_
    obtain rfl : n = m := by omega
    exact ih

end Stage1
end LkHv
