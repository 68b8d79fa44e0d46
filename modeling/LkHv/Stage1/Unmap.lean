import LkHv.Stage1.Walk

/-!
# `arm64_mmu_unmap_pt`

The function takes the leaves that meet its range out of the lookups, and frees the tables that it empties.

* `Unmapped`         what a call does to the table it was given, to those below and to those above;
* `clear_spec`, `unlink_spec`   an entry that is cleared, a table that is freed;
* `unmapChunk_spec`, `unmapLoop_spec`, `unmapPt_spec`   a round, the loop and the function.
-/

namespace LkHv
namespace Stage1
open Radix

variable {root : Nat}

/-- `s'` is `s` after `size` bytes from `rel` on are unmapped in the table `f` of level `n` with prefix `p` -/
structure Unmapped (root n f p rel size : Nat) (s : Mmu) (lab : Nat → Option (Label Unit)) (s' : Mmu)
    (lab' : Nat → Option (Label Unit)) : Prop where
  tree : TableTree s' root lab'
  cuts : ∀ k < PAGES, look s' root k = cut PAGE_SIZE 512 (look s root) (p * blockSize (n + 1) + rel) size k
  sub : ∀ g, lab' g ≠ none → lab' g = lab g
  /-- the tables above and the table itself stay -/
  above : ∀ g l q, lab g = some ⟨(), l, q⟩ → n < l →
    lab' g = lab g ∧ ∀ i < 512, s'.mem (pteAddr g i) = s.mem (pteAddr g i)
  self : lab' f = lab f
  outside : ∀ i < 512, (i + 1) * blockSize n ≤ rel ∨ rel + size ≤ i * blockSize n →
    s'.mem (pteAddr f i) = s.mem (pteAddr f i)
  full : ∀ i < 512, rel ≤ i * blockSize n → (i + 1) * blockSize n ≤ rel + size →
    s'.mem (pteAddr f i) = MMU_PTE_DESCRIPTOR_INVALID
  touched : ∀ a, s'.mem a ≠ s.mem a → ∃ g i, lab g ≠ none ∧ i < 512 ∧ a = pteAddr g i

theorem Unmapped.refl {n f p rel : Nat} {s : Mmu} {lab : Nat → Option (Label Unit)} (h : TableTree s root lab) :
    Unmapped root n f p rel 0 s lab s lab where
  tree := h
  cuts k _ := by rw [cut_zero]
  sub _ _ := rfl
  above _ _ _ _ _ := ⟨rfl, fun _ _ => rfl⟩
  self := rfl
  outside _ _ _ := rfl
  full i _ h1 h2 := by
    have hpos := blockSize_pos n
    rw [Nat.succ_mul] at h2
    omega
  touched a ha := absurd rfl ha

/-- one range after the other, when they meet between two entries -/
theorem Unmapped.trans {n f p rel c r : Nat} {s s₁ s₂ : Mmu} {lab lab₁ lab₂ : Nat → Option (Label Unit)}
    (h : Unmapped root n f p rel c s lab s₁ lab₁) (h' : Unmapped root n f p (rel + c) r s₁ lab₁ s₂ lab₂)
    (hr : r = 0 ∨ ∃ m, rel + c = m * blockSize n) : Unmapped root n f p rel (c + r) s lab s₂ lab₂ where
  tree := h'.tree
  cuts k hk := by
    rw [h'.cuts k hk, cut_congr (h.cuts k hk), ← Nat.add_assoc, cut_add (by decide) (by decide)]
  sub g hg := by
    have h1 := h'.sub g hg
    rw [h1] at hg ⊢
    exact h.sub g hg
  above g l q hg hl := by
    obtain ⟨h1, h2⟩ := h.above g l q hg hl
    obtain ⟨h3, h4⟩ := h'.above g l q (h1.trans hg) hl
    exact ⟨h3.trans h1, fun i hi => (h4 i hi).trans (h2 i hi)⟩
  self := h'.self.trans h.self
  outside i hi ho := by
    rw [h'.outside i hi (by omega), h.outside i hi (by omega)]
  full i hi h1 h2 := by
    rcases hr with rfl | ⟨m, hm⟩
    · rw [h'.outside i hi (.inl h2)]
      exact h.full i hi h1 h2
    · rcases Nat.lt_or_ge i m with him | him
      · have h3 : (i + 1) * blockSize n ≤ rel + c := by
          rw [hm]
          exact Nat.mul_le_mul_right _ him
        rw [h'.outside i hi (.inl h3)]
        exact h.full i hi h1 h3
      · apply h'.full i hi
        · rw [hm]
          exact Nat.mul_le_mul_right _ him
        · omega
  touched a ha := by
    by_cases e : s₁.mem a = s.mem a
    · rw [← e] at ha
      obtain ⟨g, i, hg, hi, rfl⟩ := h'.touched a ha
      rw [h.sub g hg] at hg
      exact ⟨g, i, hg, hi, rfl⟩
    · exact h.touched a e

/-! ## one entry -/

theorem descStore_off {s s' : Mmu} {f i : Nat} (hi : i < 512)
    (h : ∀ a, a ≠ pteAddr f i → s'.mem a = s.mem a) : AgreeOff 512 (descStore s.mem) (descStore s'.mem) f i := by
  intro l g j hj hn
  rw [descStore, descStore, h _ fun e => hn (pteAddr_inj hj hi e)]

theorem write_off (s : Mmu) {a b : Nat} (val : Nat) (h : b ≠ a) : (s.write a val).mem b = s.mem b := if_neg h

theorem write_self (s : Mmu) (a val : Nat) : (s.write a val).mem a = val := if_pos rfl

/-- storing what is there -/
theorem write_same (s : Mmu) (a : Nat) : s.write a (s.mem a) = s := by
  obtain ⟨mem, pmm⟩ := s
  rw [Mmu.write]
  congr 1
  funext b
  by_cases e : b = a
  · rw [if_pos e, e]
  · rw [if_neg e]

/-- an entry that is no child pointer becomes another that is none -/
theorem TableTree.write {s : Mmu} {lab : Nat → Option (Label Unit)} (h : TableTree s root lab) {f n p i val : Nat}
    (hf : lab f = some ⟨(), n, p⟩) (hi : i < 512) (hold : ∀ g, descView n (s.mem (pteAddr f i)) ≠ .table g)
    (hnew : ∀ g, descView n val ≠ .table g) (hval : Plain n val) :
    TableTree (s.write (pteAddr f i) val) root lab where
  pmm := h.pmm
  rootLab := h.rootLab
  rootPage := h.rootPage
  used := h.used
  forest := by
    apply h.forest.write (descStore_off hi fun a ha => write_off s val ha) hf
    intro g
    rw [descStore, write_self]
    exact hnew g
  linked := h.linked.write h.forest (by decide) h.roots hf hold (descStore_off hi fun a ha => write_off s val ha)
  plain g l q hg j hj := by
    by_cases e : pteAddr g j = pteAddr f i
    · obtain ⟨rfl, rfl⟩ := pteAddr_inj hj hi e
      rw [hf] at hg
      cases hg
      rw [write_self]
      exact hval
    · rw [write_off s val e]
      exact h.plain g l q hg j hj

/-- the range lies in entry `i` of its table -/
structure InEntry (n i rel c : Nat) : Prop where
  index : i < 512
  pos : 0 < c
  first : i * blockSize n ≤ rel
  last : rel + c ≤ (i + 1) * blockSize n

theorem InEntry.within {n i rel c : Nat} (h : InEntry n i rel c) (p : Nat) :
    Within PAGE_SIZE 512 (p * 512 + i) n (p * blockSize (n + 1) + rel) c := by
  have e : p * blockSize (n + 1) = p * 512 * blockSize n := by
    rw [blockSize_succ, Nat.mul_comm (blockSize n), Nat.mul_assoc]
  constructor
  · show (p * 512 + i) * blockSize n ≤ _
    rw [Nat.add_mul, e]
    exact Nat.add_le_add_left h.first _
  · show _ ≤ (p * 512 + i + 1) * blockSize n
    rw [Nat.add_assoc (p * 512), Nat.add_mul, e, Nat.add_assoc]
    exact Nat.add_le_add_left h.last _

/-- the entries outside the range are the other ones -/
theorem InEntry.other {n i rel c j : Nat} (h : InEntry n i rel c)
    (ho : (j + 1) * blockSize n ≤ rel ∨ rel + c ≤ j * blockSize n) : j ≠ i := by
  rintro rfl
  have h1 := h.pos
  have h2 := h.first
  have h3 := h.last
  rw [Nat.succ_mul] at ho h3
  omega

/-- an entry in the range is this one, which it fills -/
theorem InEntry.filled {n i rel c j : Nat} (h : InEntry n i rel c) (h1 : rel ≤ j * blockSize n)
    (h2 : (j + 1) * blockSize n ≤ rel + c) : j = i ∧ c = blockSize n := by
  have hpos := blockSize_pos n
  have h3 := h.first
  have h4 := h.last
  have e1 : i ≤ j := Nat.le_of_mul_le_mul_right (Nat.le_trans h3 h1) hpos
  have e2 : j + 1 ≤ i + 1 := Nat.le_of_mul_le_mul_right (Nat.le_trans h2 h4) hpos
  obtain rfl : j = i := by lia
  rw [Nat.succ_mul] at h2 h4
  lia

/-- **An entry that is no child pointer** is cleared. -/
theorem clear_spec {s : Mmu} {lab : Nat → Option (Label Unit)} (h : TableTree s root lab) {f n p i rel c : Nat}
    (hf : lab f = some ⟨(), n, p⟩) (hc : InEntry n i rel c)
    (hold : ∀ g, descView n (s.mem (pteAddr f i)) ≠ .table g) :
    Unmapped root n f p rel c s lab (s.write (pteAddr f i) MMU_PTE_DESCRIPTOR_INVALID) lab where
  tree := by
    apply h.write hf hc.index hold _ (plain_invalid n)
    intro g
    rw [descView_zero]
    nofun
  cuts k hk := by
    apply walk_clear_cut h.linked h.forest (by decide) (by decide) h.roots hf hc.index hold
      (descStore_off hc.index fun a ha => write_off s _ ha) _ hc.pos (hc.within p) (div_PAGES hk)
    rw [descStore, write_self, descView_zero]
  sub _ _ := rfl
  above g l q hg hl := by
    refine ⟨rfl, fun j hj => write_off s _ fun e => ?_⟩
    obtain ⟨rfl, -⟩ := pteAddr_inj hj hc.index e
    rw [hf] at hg
    cases hg
    exact Nat.lt_irrefl _ hl
  self := rfl
  outside j hj ho := write_off s _ fun e => hc.other ho (pteAddr_inj hj hc.index e).2
  full j hj h1 h2 := by
    rw [(hc.filled h1 h2).1, write_self]
  touched a ha := by
    by_cases e : a = pteAddr f i
    · exact ⟨f, i, by simp [hf], hc.index, e⟩
    · exact absurd (write_off s _ e) ha

/-! ## a table that is freed -/

/-- the tables that are left -/
theorem still_labelled {lab : Nat → Option (Label Unit)} {g x : Nat} (h : Function.update lab g none x ≠ none) :
    x ≠ g ∧ lab x ≠ none := by
  by_cases e : x = g
  · rw [e, Function.update_self] at h
    exact absurd rfl h
  · rw [Function.update_of_ne e] at h
    exact ⟨e, h⟩

/-- the entry of an empty table is cleared and its page goes back to the allocator -/
theorem TableTree.unlink {s : Mmu} {lab : Nat → Option (Label Unit)} (h : TableTree s root lab) {f g n p i : Nat}
    (hf : lab f = some ⟨(), n + 1, p⟩) (hi : i < 512) (hv : descView (n + 1) (s.mem (pteAddr f i)) = .table g)
    (hclear : ∀ j < 512, s.mem (pteAddr g j) = MMU_PTE_DESCRIPTOR_INVALID) :
    ∃ s', freePageTable (s.write (pteAddr f i) MMU_PTE_DESCRIPTOR_INVALID) (PAGE_SIZE * g) = some s' ∧
      s'.mem = (s.write (pteAddr f i) MMU_PTE_DESCRIPTOR_INVALID).mem ∧
      TableTree s' root (Function.update lab g none) ∧ ∀ k < PAGES, look s' root k = look s root k := by
  have hg : lab g = some ⟨(), n, p * 512 + i⟩ := h.forest f () n p i g hf hi hv
  have hgr : g ≠ root := h.ne_root hg (Nat.lt_of_succ_le (h.level_le hf))
  obtain ⟨hram, hnf⟩ := h.used g hgr (by simp [hg])
  have hpg : PAGE_SIZE * g / PAGE_SIZE = g := Nat.mul_div_cancel_left _ (by decide)
  have hgive : s.pmm.Gives (pmmFree s.pmm [g]) [g] := by
    apply h.pmm.free (by simp)
    intro q hq
    rw [List.mem_singleton.mp hq]
    exact ⟨hram, hnf⟩
  have hoff : AgreeOff 512 (descStore s.mem)
      (descStore (s.write (pteAddr f i) MMU_PTE_DESCRIPTOR_INVALID).mem) f i :=
    descStore_off hi fun a ha => write_off s _ ha
  have hU : Unlinks 512 (descStore s.mem) (descStore (s.write (pteAddr f i) MMU_PTE_DESCRIPTOR_INVALID).mem)
      n f i g := by
    refine ⟨hv, fun m => ?_, fun m j hj => ?_, hoff⟩
    · rw [descStore, write_self, descView_zero]
    · rw [descStore, hclear j hj, descView_zero]
  refine ⟨{ s.write (pteAddr f i) MMU_PTE_DESCRIPTOR_INVALID with pmm := pmmFree s.pmm [g] }, ?_, rfl, ?_, ?_⟩
  · rw [freePageTable, hpg]
    exact if_pos hram
  · refine ⟨hgive.wf, ?_, fun hr => ?_, fun x hx hl => ?_, ?_, ?_, fun x l q hl j hj => ?_⟩
    · rw [Function.update_of_ne hgr.symm]
      exact h.rootLab
    · rw [hgive.nonfree, h.rootPage ((hgive.ram root).mp hr)]
      simp [hgr.symm]
    · obtain ⟨h1, h2⟩ := still_labelled hl
      obtain ⟨h3, h4⟩ := h.used x hx h2
      refine ⟨(hgive.ram x).mpr h3, ?_⟩
      rw [hgive.nonfree, h4]
      simp [h1]
    · exact h.forest.unlink h.linked hi hf hU
    · exact h.linked.unlink h.forest (by decide) h.roots hf hU
    · have h1 := (still_labelled (Option.ne_none_iff_exists'.mpr ⟨_, hl⟩)).1
      rw [Function.update_of_ne h1] at hl
      by_cases e : pteAddr x j = pteAddr f i
      · show Plain l ((s.write (pteAddr f i) MMU_PTE_DESCRIPTOR_INVALID).mem (pteAddr x j))
        rw [e, write_self]
        exact plain_invalid l
      · show Plain l ((s.write (pteAddr f i) MMU_PTE_DESCRIPTOR_INVALID).mem (pteAddr x j))
        rw [write_off s _ e]
        exact h.plain x l q hl j hj
  · intro k hk
    apply walk_unlink h.forest (by decide) hf hU (t := ())
    rw [div_PAGES hk, h.rootLab]

/-- **A table below** that the range has emptied is freed. -/
theorem unlink_spec {s s₁ : Mmu} {lab lab₁ : Nat → Option (Label Unit)} {f g n p i rel c : Nat}
    (hf : lab f = some ⟨(), n + 1, p⟩) (hc : InEntry (n + 1) i rel c) (hfg : f ≠ g)
    (h₁ : Unmapped root n g (p * 512 + i) (rel % blockSize (n + 1)) c s lab s₁ lab₁)
    (hv : descView (n + 1) (s.mem (pteAddr f i)) = .table g)
    (hclear : ∀ j < 512, s₁.mem (pteAddr g j) = MMU_PTE_DESCRIPTOR_INVALID)
    (hrel : p * blockSize (n + 1 + 1) + rel = (p * 512 + i) * blockSize (n + 1) + rel % blockSize (n + 1)) :
    ∃ s' lab', freePageTable (s₁.write (pteAddr f i) MMU_PTE_DESCRIPTOR_INVALID) (PAGE_SIZE * g) = some s' ∧
      Unmapped root (n + 1) f p rel c s lab s' lab' := by
  obtain ⟨hl1, hm1⟩ := h₁.above f (n + 1) p hf (Nat.lt_succ_self n)
  obtain ⟨s', h2, h3, h4, h5⟩ := h₁.tree.unlink (hl1.trans hf) hc.index (by rw [hm1 i hc.index]; exact hv) hclear
  refine ⟨s', _, h2, h4, ?_, ?_, ?_, ?_, ?_, ?_, ?_⟩
  · intro k hk
    rw [h5 k hk, h₁.cuts k hk, hrel]
  · intro x hx
    obtain ⟨h6, h7⟩ := still_labelled hx
    rw [Function.update_of_ne h6]
    exact h₁.sub x h7
  · intro x l q hx hl
    obtain ⟨h6, h7⟩ := h₁.above x l q hx (by lia)
    have hg : lab₁ g = some ⟨(), n, p * 512 + i⟩ :=
      h₁.tree.forest f () n p i g (hl1.trans hf) hc.index (by rw [descStore, hm1 i hc.index]; exact hv)
    have hxg : x ≠ g := by
      rintro rfl
      rw [h6, hx] at hg
      cases hg
      lia
    refine ⟨by rw [Function.update_of_ne hxg, h6], fun j hj => ?_⟩
    rw [h3, write_off s₁ _ fun e => ?_, h7 j hj]
    obtain ⟨rfl, -⟩ := pteAddr_inj hj hc.index e
    rw [hf] at hx
    cases hx
    exact Nat.lt_irrefl _ hl
  · rw [Function.update_of_ne hfg, hl1]
  · intro j hj ho
    rw [h3, write_off s₁ _ fun e => hc.other ho (pteAddr_inj hj hc.index e).2, hm1 j hj]
  · intro j hj e1 e2
    rw [h3, (hc.filled e1 e2).1, write_self]
  · intro a ha
    rw [h3] at ha
    by_cases e : a = pteAddr f i
    · exact ⟨f, i, by simp [hf], hc.index, e⟩
    · rw [write_off s₁ _ e] at ha
      exact h₁.touched a ha

/-! ## the loop -/

/-- the part of the range that a round takes -/
theorem chunk_inEntry {n rel size : Nat} (hs : 0 < size) (h : rel + size ≤ blockSize (n + 1)) :
    InEntry n (rel / blockSize n) rel (chunkSize n rel size) := by
  have hpos := blockSize_pos n
  have hmod := Nat.mod_lt rel hpos
  have hdiv := Nat.div_add_mod rel (blockSize n)
  rw [Nat.mul_comm] at hdiv
  rw [chunkSize_eq]
  refine ⟨?_, by omega, by omega, ?_⟩
  · rw [Nat.div_lt_iff_lt_mul hpos, Nat.mul_comm, ← blockSize_succ]
    omega
  · rw [Nat.succ_mul]
    omega

/-- a round takes all that is left, or ends where an entry ends -/
theorem chunk_end (n rel size : Nat) :
    chunkSize n rel size = size ∨ rel + chunkSize n rel size = (rel / blockSize n + 1) * blockSize n := by
  have hmod := Nat.mod_lt rel (blockSize_pos n)
  have hdiv := Nat.div_add_mod rel (blockSize n)
  rw [Nat.mul_comm] at hdiv
  rw [chunkSize_eq, Nat.succ_mul]
  lia

theorem chunk_le (n rel size : Nat) : chunkSize n rel size ≤ size := by
  rw [chunkSize_eq]
  exact Nat.min_le_left _ _

/-- the part lies in the table below the entry -/
theorem chunk_below (n rel size : Nat) : rel % blockSize n + chunkSize n rel size ≤ blockSize n := by
  have hmod := Nat.mod_lt rel (blockSize_pos n)
  rw [chunkSize_eq]
  omega

/-- the address of the part, from the table and from the entry -/
theorem rel_split (n p rel : Nat) :
    p * blockSize (n + 1) + rel = (p * 512 + rel / blockSize n) * blockSize n + rel % blockSize n := by
  have hdiv := Nat.div_add_mod rel (blockSize n)
  rw [Nat.mul_comm] at hdiv
  rw [blockSize_succ, Nat.mul_comm (blockSize n), Nat.add_mul, Nat.mul_assoc, Nat.add_assoc, hdiv]

/-- what the function does in a table of level `n` -/
def UnmapSpec (root n : Nat) (unmap : Mmu → Nat → Nat → Nat → Option Mmu) : Prop :=
  ∀ s lab f p rel size, TableTree s root lab → lab f = some ⟨(), n, p⟩ → rel + size ≤ blockSize (n + 1) →
    ∃ s' lab', unmap s rel size (PAGE_SIZE * f) = some s' ∧ Unmapped root n f p rel size s lab s' lab'

theorem pageTableIsClear_iff (s : Mmu) (g : Nat) :
    pageTableIsClear s (PAGE_SIZE * g) = true ↔ ∀ j < 512, s.mem (pteAddr g j) = MMU_PTE_DESCRIPTOR_INVALID := by
  rw [pageTableIsClear, List.all_eq_true]
  constructor
  · intro h j hj
    exact eq_of_beq (h j (List.mem_range.mpr hj))
  · intro h j hj
    exact beq_iff_eq.mpr (h j (List.mem_range.mp hj))

/-- **One round** -/
theorem unmapChunk_spec {sub : Mmu → Nat → Nat → Nat → Option Mmu} {n : Nat}
    (hsub : ∀ m, n = m + 1 → UnmapSpec root m sub) {s : Mmu} {lab : Nat → Option (Label Unit)} {f p rel size : Nat}
    (h : TableTree s root lab) (hf : lab f = some ⟨(), n, p⟩) (hs : 0 < size)
    (hsize : rel + size ≤ blockSize (n + 1)) :
    ∃ s' lab', unmapChunk sub n (PAGE_SIZE * f) s rel (chunkSize n rel size) = some s' ∧
      Unmapped root n f p rel (chunkSize n rel size) s lab s' lab' := by
  have hc := chunk_inEntry hs hsize
  have hi := hc.index
  rw [unmapChunk]
  simp only [shiftRight_block, shift_block, vaddrRem_eq]
  have haddr : PAGE_SIZE * f + 8 * (rel / blockSize n) = pteAddr f (rel / blockSize n) := rfl
  rw [haddr]
  by_cases ht : indexShift n > PAGE_SIZE_SHIFT ∧
      s.mem (pteAddr f (rel / blockSize n)) &&& MMU_PTE_DESCRIPTOR_MASK = MMU_PTE_L012_DESCRIPTOR_TABLE
  · -- a table below
    rw [if_pos ht, outputAddr_eq]
    obtain ⟨m, rfl⟩ : ∃ m, n = m + 1 := by
      apply Nat.exists_eq_succ_of_ne_zero
      rintro rfl
      exact absurd ht.1 (by decide)
    have hv := descView_table (l := m) ht.2
    have hg := h.child hf hi ht.2
    obtain ⟨s₁, lab₁, h1, h2⟩ := hsub m rfl s lab _ _ (rel % blockSize (m + 1)) (chunkSize (m + 1) rel size) h hg
      (chunk_below _ _ _)
    rw [h1, Option.bind_some]
    obtain ⟨hl1, hm1⟩ := h2.above f (m + 1) p hf (Nat.lt_succ_self m)
    by_cases hcl : chunkSize (m + 1) rel size = blockSize (m + 1) ∨
        pageTableIsClear s₁ (PAGE_SIZE * outPage (s.mem (pteAddr f (rel / blockSize (m + 1))))) = true
    · rw [if_pos hcl]
      have hfg : f ≠ outPage (s.mem (pteAddr f (rel / blockSize (m + 1)))) := by
        intro e
        rw [← e, hf] at hg
        have := (Label.mk.inj (Option.some.inj hg)).2.1
        lia
      refine unlink_spec hf hc hfg h2 hv ?_ (rel_split _ _ _)
      rcases hcl with hcl | hcl
      · -- the whole of the table was asked for
        intro j hj
        have h0 : rel % blockSize (m + 1) = 0 := by
          have := chunk_below (m + 1) rel size
          lia
        apply h2.full j hj
        · rw [h0]
          exact Nat.zero_le _
        · rw [h0, hcl, Nat.zero_add, blockSize_succ, Nat.mul_comm (blockSize m)]
          exact Nat.mul_le_mul_right _ hj
      · exact (pageTableIsClear_iff _ _).mp hcl
    · rw [if_neg hcl]
      refine ⟨s₁, lab₁, rfl, h2.tree, fun k hk => ?_, h2.sub, fun g l q hg' hl => h2.above g l q hg' (by lia),
        hl1, fun j hj _ => hm1 j hj, fun j hj e1 e2 => ?_, h2.touched⟩
      · rw [h2.cuts k hk, rel_split (m + 1)]
      · exact absurd (.inl (hc.filled e1 e2).2) hcl
  · rw [if_neg ht]
    have hold : ∀ g, descView n (s.mem (pteAddr f (rel / blockSize n))) ≠ .table g := by
      intro g hg
      obtain ⟨h1, h2, -⟩ := descView_table_iff hg
      refine ht ⟨?_, h2⟩
      rw [indexShift, PAGE_SIZE_SHIFT]
      lia
    have hspec := clear_spec h hf hc hold
    by_cases h0 : s.mem (pteAddr f (rel / blockSize n)) ≠ 0
    · rw [if_pos h0]
      exact ⟨_, lab, rfl, hspec⟩
    · rw [if_neg h0]
      have hw := write_same s (pteAddr f (rel / blockSize n))
      rw [not_not.mp h0] at hw
      rw [MMU_PTE_DESCRIPTOR_INVALID, hw] at hspec
      exact ⟨s, lab, rfl, hspec⟩

/-- **The loop**; every round goes on to the next entry of the table. -/
theorem unmapLoop_spec {sub : Mmu → Nat → Nat → Nat → Option Mmu} {n : Nat}
    (hsub : ∀ m, n = m + 1 → UnmapSpec root m sub) {f p : Nat} :
    ∀ {rounds : Nat} {s : Mmu} {lab : Nat → Option (Label Unit)} (rel size : Nat), TableTree s root lab →
      lab f = some ⟨(), n, p⟩ → rel + size ≤ blockSize (n + 1) → size = 0 ∨ 512 ≤ rounds + rel / blockSize n →
      ∃ s' lab', unmapLoop sub n (PAGE_SIZE * f) rounds s rel size = some s' ∧
        Unmapped root n f p rel size s lab s' lab' := by
  intro rounds
  induction rounds with
  | zero =>
    intro s lab rel size h hf hsize hr
    have h0 : size = 0 := by
      rcases hr with h0 | hr
      · exact h0
      · by_contra hne
        have := (chunk_inEntry (Nat.pos_of_ne_zero hne) hsize).index
        lia
    rw [h0, unmapLoop]
    exact ⟨s, lab, rfl, Unmapped.refl h⟩
  | succ rounds ih =>
    intro s lab rel size h hf hsize hr
    rw [unmapLoop]
    by_cases h0 : size = 0
    · rw [if_pos h0, h0]
      exact ⟨s, lab, rfl, Unmapped.refl h⟩
    · rw [if_neg h0]
      obtain ⟨s₁, lab₁, h1, h2⟩ := unmapChunk_spec hsub h hf (Nat.pos_of_ne_zero h0) hsize
      have hle := chunk_le n rel size
      have hend := chunk_end n rel size
      obtain ⟨s₂, lab₂, h3, h4⟩ := ih (rel + chunkSize n rel size) (size - chunkSize n rel size)
        h2.tree (h2.self.trans hf) (by lia) (by
          rcases hend with he | he
          · left
            lia
          · right
            rw [he, Nat.mul_div_cancel _ (blockSize_pos n)]
            lia)
      simp only [h1, Option.bind_some, h3]
      refine ⟨s₂, lab₂, rfl, ?_⟩
      have h5 := h2.trans h4 (by
        rcases hend with he | he
        · left
          lia
        · exact .inr ⟨_, he⟩)
      rwa [Nat.add_sub_cancel' hle] at h5

/-- **`arm64_mmu_unmap_pt`** -/
theorem unmapPt_spec (root : Nat) : ∀ n, UnmapSpec root n (unmapPt n) := by
  intro n
  induction n with
  | zero =>
    intro s lab f p rel size h hf hsize
    rw [unmapPt]
    exact unmapLoop_spec (fun m hm => by cases hm) rel size h hf hsize (.inr (Nat.le_add_right _ _))
  | succ n ih =>
    intro s lab f p rel size h hf hsize
    rw [unmapPt]
    refine unmapLoop_spec (fun m hm => ?_) rel size h hf hsize (.inr (Nat.le_add_right _ _))
    obtain rfl : n = m := by omega
    exact ih

end Stage1
end LkHv
