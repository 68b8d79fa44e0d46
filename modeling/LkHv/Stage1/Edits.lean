import LkHv.Stage1.Meaning

/-!
# What `arm64_mmu_map` and `arm64_mmu_unmap` leave alone

Several address spaces live in one memory over one page allocator.  A call for one of them stores only to its own
tables, takes pages only for tables, and gives back only tables.

* `TableTree.unique`   a memory has one set of tables under a root;
* `Edited`, `Edited.trans`   pages that are no tables stay as they are; new tables are where `N` allows them;
* `Tidy`               the tables of the range that are left are not empty;
* `unmapPt_edits`, `mapPt_edits`   the two recursions;
* `TableTree.frame`    the tables of another address space.
-/

namespace LkHv
namespace Stage1
open Radix

variable {root : Nat} {s s' s₁ s₂ : Mmu} {lab lab' lab₁ lab₂ : Nat → Option (Label Unit)} {N : Nat → Nat → Prop}

/-! ## one set of tables -/

theorem TableTree.labelled (h : TableTree s root lab) (h' : TableTree s root lab') {f : Nat} {x : Label Unit}
    (hf : lab f = some x) : lab' f = some x := by
  obtain ⟨⟨⟩, l, p⟩ := x
  obtain ⟨h1, -, h3⟩ := h.linked f () l p hf
  have h4 := h'.forest.slot_lab (by decide) (t := ()) (k := p * 512 ^ (l + 1)) (by rw [h1, h'.rootLab]) h3
  rwa [Nat.mul_div_cancel _ (Nat.pow_pos (by decide))] at h4

/-- **The tables under a root are determined by the memory.** -/
theorem TableTree.unique (h : TableTree s root lab) (h' : TableTree s root lab') : lab' = lab := by
  funext f
  cases hf : lab f with
  | some x => exact h.labelled h' hf
  | none =>
    cases hf' : lab' f with
    | none => rfl
    | some x =>
      rw [h'.labelled h hf'] at hf
      cases hf

/-- a page that is no table of the address space, and not free -/
def Other (s : Mmu) (lab : Nat → Option (Label Unit)) (p : Nat) : Prop :=
  lab p = none ∧ (s.pmm.Ram p → s.pmm.nonfree p = true)

/-- an entry is 0, or has a type -/
def Typed (pte : Nat) : Prop := pte = 0 ∨ pte &&& MMU_PTE_DESCRIPTOR_MASK ≠ MMU_PTE_DESCRIPTOR_INVALID

/-- the entries of the tables are 0, or have a type -/
def Zeroed (s : Mmu) (lab : Nat → Option (Label Unit)) : Prop :=
  ∀ f i, lab f ≠ none → i < 512 → Typed (s.mem (pteAddr f i))

/-- the tables change from `lab` to `lab'`; `N` says where a new table may be -/
structure Edited (N : Nat → Nat → Prop) (s : Mmu) (lab : Nat → Option (Label Unit)) (s' : Mmu)
    (lab' : Nat → Option (Label Unit)) : Prop where
  ram : ∀ p, s'.pmm.Ram p ↔ s.pmm.Ram p
  kept : ∀ p, Other s lab p → lab' p = none ∧ s'.pmm.nonfree p = s.pmm.nonfree p ∧
    ∀ i < 512, s'.mem (pteAddr p i) = s.mem (pteAddr p i)
  taken : ∀ p, s'.pmm.nonfree p = true → lab' p ≠ none ∨ s.pmm.nonfree p = true ∧ lab p = none
  new : ∀ p x, lab' p = some x → lab p = some x ∨ N x.level x.pfx
  zeroed : Zeroed s lab → Zeroed s' lab'

theorem Edited.refl (N : Nat → Nat → Prop) (s : Mmu) (lab : Nat → Option (Label Unit)) : Edited N s lab s lab where
  ram _ := Iff.rfl
  kept _ h := ⟨h.1, rfl, fun _ _ => rfl⟩
  taken p hp := by
    by_cases hl : lab p = none
    · exact .inr ⟨hp, hl⟩
    · exact .inl hl
  new _ _ h := .inl h
  zeroed h := h

theorem Edited.other (h : Edited N s lab s' lab') {p : Nat} (hp : Other s lab p) : Other s' lab' p := by
  obtain ⟨h1, h2, -⟩ := h.kept p hp
  exact ⟨h1, fun hr => h2.trans (hp.2 ((h.ram p).mp hr))⟩

theorem Edited.trans (h : Edited N s lab s₁ lab₁) (h' : Edited N s₁ lab₁ s₂ lab₂) : Edited N s lab s₂ lab₂ where
  ram p := (h'.ram p).trans (h.ram p)
  kept p hp := by
    obtain ⟨-, h2, h3⟩ := h.kept p hp
    obtain ⟨h4, h5, h6⟩ := h'.kept p (h.other hp)
    exact ⟨h4, h5.trans h2, fun i hi => (h6 i hi).trans (h3 i hi)⟩
  taken p hp := by
    rcases h'.taken p hp with h1 | ⟨h1, h2⟩
    · exact .inl h1
    · exact .inr ((h.taken p h1).resolve_left fun hn => hn h2)
  new p x hx := (h'.new p x hx).elim (h.new p x) .inr
  zeroed hz := h'.zeroed (h.zeroed hz)

theorem Edited.mono {N' : Nat → Nat → Prop} (h : Edited N s lab s' lab') (hN : ∀ l q, N l q → N' l q) :
    Edited N' s lab s' lab' :=
  ⟨h.ram, h.kept, h.taken, fun p x hx => (h.new p x hx).imp_right (hN _ _), h.zeroed⟩

/-! ## one store, one table -/

/-- a store to an entry of a table -/
theorem edited_write {f i val : Nat} (hf : lab f ≠ none) (hi : i < 512) (hval : Typed val) :
    Edited N s lab (s.write (pteAddr f i) val) lab := by
  refine ⟨fun _ => Iff.rfl, fun p hp => ⟨hp.1, rfl, fun j hj => ?_⟩, (Edited.refl N s lab).taken, fun _ _ h => .inl h,
    fun hz g j hg hj => ?_⟩
  · refine write_off s val fun e => hf ?_
    rw [← (pteAddr_inj hj hi e).1]
    exact hp.1
  · by_cases e : pteAddr g j = pteAddr f i
    · rw [e, write_self]
      exact hval
    · rw [write_off s val e]
      exact hz g j hg hj

/-- the allocator has no page -/
theorem edited_refused {pmm : Pmm} (ht : s.pmm.Takes pmm []) : Edited N s lab { s with pmm } lab := by
  have hn : ∀ p, pmm.nonfree p = s.pmm.nonfree p := fun p => by
    rw [ht.nonfree]
    simp [setNonfree]
  refine ⟨ht.ram, fun p hp => ⟨hp.1, hn p, fun _ _ => rfl⟩, fun p hp => ?_, fun _ _ h => .inl h, fun hz => hz⟩
  rw [hn p] at hp
  exact (Edited.refl N s lab).taken p hp

/-- a free page becomes a table -/
theorem edited_link {pmm : Pmm} {f g i l q val : Nat} (hf : lab f ≠ none) (hi : i < 512) (ht : s.pmm.Takes pmm [g])
    (hN : N l q) (hval : Typed val) : Edited N s lab ((Mmu.clearPage { s with pmm } g).write (pteAddr f i) val)
      (Function.update lab g (some ⟨(), l, q⟩)) := by
  obtain ⟨hram, hfree⟩ := ht.free g (by simp)
  have hne : ∀ {p}, Other s lab p → p ≠ g := by
    rintro p hp rfl
    rw [hp.2 hram] at hfree
    cases hfree
  refine ⟨ht.ram, fun p hp => ⟨?_, ?_, fun j hj => ?_⟩, fun p hp => ?_, fun p x hx => ?_, fun hz x j hx hj => ?_⟩
  · rw [Function.update_of_ne (hne hp)]
    exact hp.1
  · show pmm.nonfree p = _
    rw [ht.nonfree]
    simp [setNonfree, hne hp]
  · rw [write_off _ val fun e => hf ?_]
    · exact if_neg (by
        rw [pteAddr_page hj]
        exact hne hp)
    · rw [← (pteAddr_inj hj hi e).1]
      exact hp.1
  · change pmm.nonfree p = true at hp
    by_cases e : p = g
    · rw [e, Function.update_self]
      exact .inl (Option.some_ne_none _)
    · rw [Function.update_of_ne e]
      rw [ht.nonfree] at hp
      exact (Edited.refl N s lab).taken p (by simpa [setNonfree, e] using hp)
  · by_cases e : p = g
    · rw [e, Function.update_self] at hx
      cases hx
      exact .inr hN
    · rw [Function.update_of_ne e] at hx
      exact .inl hx
  · by_cases e : pteAddr x j = pteAddr f i
    · rw [e, write_self]
      exact hval
    · rw [write_off _ val e]
      by_cases exg : x = g
      · exact .inl (if_pos (by rw [pteAddr_page hj, exg]))
      · rw [Function.update_of_ne exg] at hx
        have hclear : (Mmu.clearPage { s with pmm } g).mem (pteAddr x j) = s.mem (pteAddr x j) := if_neg (by
          rw [pteAddr_page hj]
          exact exg)
        rw [hclear]
        exact hz x j hx hj

/-- a table goes back to the allocator -/
theorem edited_unlink {f g i val : Nat} (hf : lab f ≠ none) (hi : i < 512) (hg : lab g ≠ none) (hval : Typed val)
    (hm : s'.mem = (s.write (pteAddr f i) val).mem) (hp : s.pmm.Gives s'.pmm [g]) :
    Edited N s lab s' (Function.update lab g none) := by
  have hne : ∀ {p}, Other s lab p → p ≠ g := fun ho e => hg (e ▸ ho.1)
  refine ⟨hp.ram, fun p ho => ⟨?_, ?_, fun j hj => ?_⟩, fun p hn => ?_, fun p x hx => ?_, fun hz x j hx hj => ?_⟩
  · rw [Function.update_of_ne (hne ho)]
    exact ho.1
  · rw [hp.nonfree]
    simp [hne ho]
  · rw [hm, write_off s val fun e => hf ?_]
    rw [← (pteAddr_inj hj hi e).1]
    exact ho.1
  · rw [hp.nonfree] at hn
    have hpg : p ≠ g := by
      rintro rfl
      simp at hn
    rw [Function.update_of_ne hpg]
    exact (Edited.refl N s lab).taken p (by simpa [hpg] using hn)
  · exact .inl (by
      rwa [Function.update_of_ne (still_labelled (Option.ne_none_iff_exists'.mpr ⟨x, hx⟩)).1] at hx)
  · rw [hm]
    exact (edited_write (N := N) hf hi hval).zeroed hz x j (still_labelled hx).2 hj

/-! ## empty tables -/

def Clear (s : Mmu) (g : Nat) : Prop := ∀ j < 512, s.mem (pteAddr g j) = MMU_PTE_DESCRIPTOR_INVALID

/-- a table of level `l` with prefix `q` covers an address of the range -/
def Meets (l q a size : Nat) : Prop :=
  ∃ x, q * blockSize (l + 1) ≤ x ∧ x < (q + 1) * blockSize (l + 1) ∧ a ≤ x ∧ x < a + size

/-- of the tables up to level `n`, those that are empty now were empty, and are not in the range -/
def Tidy (n f a size : Nat) (s : Mmu) (lab : Nat → Option (Label Unit)) (s' : Mmu)
    (lab' : Nat → Option (Label Unit)) : Prop :=
  ∀ g l q, g ≠ f → l ≤ n → lab' g = some ⟨(), l, q⟩ → Clear s' g →
    lab g = some ⟨(), l, q⟩ ∧ Clear s g ∧ (l < n → ¬ Meets l q a size)

theorem Tidy.trans {n f a c r : Nat} (h : Tidy n f a c s lab s₁ lab₁) (h' : Tidy n f (a + c) r s₁ lab₁ s₂ lab₂) :
    Tidy n f a (c + r) s lab s₂ lab₂ := by
  intro g l q hg hl hx hc
  obtain ⟨h1, h2, h3⟩ := h' g l q hg hl hx hc
  obtain ⟨h4, h5, h6⟩ := h g l q hg hl h1 h2
  refine ⟨h4, h5, fun hn => ?_⟩
  rintro ⟨x, e1, e2, e3, e4⟩
  rcases Nat.lt_or_ge x (a + c) with hx | hx
  · exact h6 hn ⟨x, e1, e2, e3, hx⟩
  · exact h3 hn ⟨x, e1, e2, hx, by lia⟩

theorem Tidy.refl (n f a : Nat) (s : Mmu) (lab : Nat → Option (Label Unit)) : Tidy n f a 0 s lab s lab := by
  intro g l q _ _ hx hc
  refine ⟨hx, hc, fun _ => ?_⟩
  rintro ⟨x, -, -, e3, e4⟩
  omega

/-- the page of an address, in blocks -/
theorem block_of {l q x : Nat} (h1 : q * blockSize l ≤ x) (h2 : x < (q + 1) * blockSize l) :
    x / PAGE_SIZE / 512 ^ l = q := by
  rw [← block_div, Nat.div_eq_iff (blockSize_pos l)]
  rw [Nat.succ_mul] at h2
  omega

/-- **A table under an entry**: the entry points to a table. -/
theorem TableTree.below (h : TableTree s root lab) {f g n p i l q : Nat} (hf : lab f = some ⟨(), n, p⟩)
    (hi : i < 512) (hg : lab g = some ⟨(), l, q⟩) (hl : l < n)
    (hm : Meets l q ((p * 512 + i) * blockSize n) (blockSize n)) :
    ∃ c, descView n (s.mem (pteAddr f i)) = .table c := by
  obtain ⟨x, e1, e2, e3, e4⟩ := hm
  have hq := block_of e1 e2
  have hp := block_of e3 (by rwa [Nat.succ_mul])
  obtain ⟨hp1, hp2⟩ := entry_key (B := 512) (by decide) hi hp
  have sf := h.linked.slot (by decide) (k := x / PAGE_SIZE) (by rw [hp1]; exact hf)
  have sg := h.linked.slot (by decide) (k := x / PAGE_SIZE) (by rw [hq]; exact hg)
  obtain ⟨m, rfl⟩ := Nat.exists_eq_add_of_lt hl
  rw [slot_of_slot (by lia) (h.level_le hf) sf, slot_step (by lia)] at sg
  split at sg
  · rename_i c hv
    rw [hp2] at hv
    exact ⟨c, hv⟩
  · cases sg

/-! ## `arm64_mmu_unmap_pt` -/

theorem freePageTable_pmm {g : Nat} (h : freePageTable s (PAGE_SIZE * g) = some s') : s'.pmm = pmmFree s.pmm [g] := by
  rw [freePageTable, Nat.mul_div_cancel_left _ (show 0 < PAGE_SIZE by decide)] at h
  obtain ⟨-, he⟩ := Option.ite_none_right_eq_some.mp h
  rw [← Option.some.inj he]

/-- what else the function does in a table of level `n` -/
def UnmapEdits (root n : Nat) (N : Nat → Nat → Prop) (unmap : Mmu → Nat → Nat → Nat → Option Mmu) : Prop :=
  ∀ s lab f p rel size s' lab', TableTree s root lab → lab f = some ⟨(), n, p⟩ → rel + size ≤ blockSize (n + 1) →
    unmap s rel size (PAGE_SIZE * f) = some s' → TableTree s' root lab' →
    Edited N s lab s' lab' ∧ Tidy n f (p * blockSize (n + 1) + rel) size s lab s' lab'

/-- a part of a range that meets less -/
theorem Meets.mono {l q a a' c c' : Nat} (h : Meets l q a c) (h1 : a' ≤ a) (h2 : a + c ≤ a' + c') :
    Meets l q a' c' := by
  obtain ⟨x, e1, e2, e3, e4⟩ := h
  exact ⟨x, e1, e2, by lia, by lia⟩

/-- the part of the range in an entry, seen from the top -/
theorem InEntry.meets {n i rel c l q p : Nat} (h : InEntry n i rel c)
    (hm : Meets l q (p * blockSize (n + 1) + rel) c) : Meets l q ((p * 512 + i) * blockSize n) (blockSize n) := by
  obtain ⟨h1, h2⟩ := h.within p
  change (p * 512 + i) * blockSize n ≤ _ at h1
  change _ ≤ (p * 512 + i + 1) * blockSize n at h2
  rw [Nat.succ_mul] at h2
  exact hm.mono h1 h2

/-- an entry that is no child pointer is cleared, or was clear -/
theorem clear_edits (h : TableTree s root lab) {f n p i rel c : Nat} (hf : lab f = some ⟨(), n, p⟩)
    (hc : InEntry n i rel c) (hold : ∀ g, descView n (s.mem (pteAddr f i)) ≠ .table g) :
    Edited N s lab (s.write (pteAddr f i) MMU_PTE_DESCRIPTOR_INVALID) lab ∧
      Tidy n f (p * blockSize (n + 1) + rel) c s lab (s.write (pteAddr f i) MMU_PTE_DESCRIPTOR_INVALID) lab := by
  refine ⟨edited_write (by simp [hf]) hc.index (.inl rfl), fun g l q hg hl hx hclear => ⟨hx, fun j hj => ?_, fun hn hm => ?_⟩⟩
  · rw [← hclear j hj, write_off s _ fun e => hg (pteAddr_inj hj hc.index e).1]
  · obtain ⟨x, hx⟩ := h.below hf hc.index hx hn (hc.meets hm)
    exact hold x hx

theorem unmapChunk_edits {sub : Mmu → Nat → Nat → Nat → Option Mmu} {n : Nat}
    (hsub : ∀ m, n = m + 1 → UnmapSpec root m sub) (hsub' : ∀ m, n = m + 1 → UnmapEdits root m N sub)
    {f p rel size : Nat} (h : TableTree s root lab) (hf : lab f = some ⟨(), n, p⟩) (hs : 0 < size)
    (hsize : rel + size ≤ blockSize (n + 1))
    (hr : unmapChunk sub n (PAGE_SIZE * f) s rel (chunkSize n rel size) = some s') (h' : TableTree s' root lab') :
    Edited N s lab s' lab' ∧ Tidy n f (p * blockSize (n + 1) + rel) (chunkSize n rel size) s lab s' lab' := by
  have hc := chunk_inEntry hs hsize
  have hi := hc.index
  rw [unmapChunk] at hr
  simp only [shiftRight_block, shift_block, vaddrRem_eq] at hr
  have haddr : PAGE_SIZE * f + 8 * (rel / blockSize n) = pteAddr f (rel / blockSize n) := rfl
  rw [haddr] at hr
  by_cases ht : indexShift n > PAGE_SIZE_SHIFT ∧
      s.mem (pteAddr f (rel / blockSize n)) &&& MMU_PTE_DESCRIPTOR_MASK = MMU_PTE_L012_DESCRIPTOR_TABLE
  · rw [if_pos ht, outputAddr_eq] at hr
    obtain ⟨m, rfl⟩ : ∃ m, n = m + 1 := by
      apply Nat.exists_eq_succ_of_ne_zero
      rintro rfl
      exact absurd ht.1 (by decide)
    have hv := descView_table (l := m) ht.2
    have hg := h.child hf hi ht.2
    have hbelow := chunk_below (m + 1) rel size
    have hsplit := rel_split (m + 1) p rel
    generalize outPage (s.mem (pteAddr f (rel / blockSize (m + 1)))) = g at hr hv hg
    obtain ⟨s₁, lab₁, h1, h2⟩ := hsub m rfl s lab g _ (rel % blockSize (m + 1)) (chunkSize (m + 1) rel size) h hg hbelow
    obtain ⟨he, htidy⟩ := hsub' m rfl s lab g _ _ _ s₁ lab₁ h hg hbelow h1 h2.tree
    rw [← hsplit] at htidy
    rw [h1, Option.bind_some] at hr
    obtain ⟨hl1, hm1⟩ := h2.above f (m + 1) p hf (Nat.lt_succ_self m)
    have hfg : g ≠ f := by
      rintro rfl
      rw [hf] at hg
      have := (Label.mk.inj (Option.some.inj hg)).2.1
      lia
    -- the table itself apart, what the call below says is what the round does
    have key : ∀ x l q, x ≠ f → x ≠ g → l ≤ m + 1 → lab₁ x = some ⟨(), l, q⟩ → Clear s₁ x →
        lab x = some ⟨(), l, q⟩ ∧ Clear s x ∧ (l < m + 1 → ¬ Meets l q (p * blockSize (m + 1 + 1) + rel)
          (chunkSize (m + 1) rel size)) := by
      intro x l q hxf hxg hl hx hclear
      rcases Nat.lt_or_ge m l with hlm | hlm
      · -- a table of the same level as `f`
        have hx0 : lab x = some ⟨(), l, q⟩ := by
          rw [← h2.sub x (by simp [hx])]
          exact hx
        obtain ⟨-, hm2⟩ := h2.above x l q hx0 hlm
        exact ⟨hx0, fun j hj => (hm2 j hj).symm.trans (hclear j hj), fun hn => by lia⟩
      · obtain ⟨h3, h4, h5⟩ := htidy x l q hxg hlm hx hclear
        refine ⟨h3, h4, fun hn hmeets => ?_⟩
        rcases Nat.lt_or_ge l m with hlt | hge
        · exact h5 hlt hmeets
        · -- the only table of its level in the range is `g`
          obtain rfl : l = m := by lia
          obtain ⟨y, e1, e2, e3, e4⟩ := hc.meets hmeets
          have hq := block_of e1 e2
          rw [block_of e3 (by rwa [Nat.succ_mul])] at hq
          rw [← hq] at h3
          exact hxg (h.linked.inj h3 hg)
    by_cases hcl : chunkSize (m + 1) rel size = blockSize (m + 1) ∨ pageTableIsClear s₁ (PAGE_SIZE * g) = true
    · rw [if_pos hcl] at hr
      have hclear : Clear s₁ g := by
        rcases hcl with hcl | hcl
        · intro j hj
          have h0 : rel % blockSize (m + 1) = 0 := by lia
          apply h2.full j hj
          · rw [h0]
            exact Nat.zero_le _
          · rw [h0, hcl, Nat.zero_add, blockSize_succ, Nat.mul_comm (blockSize m)]
            exact Nat.mul_le_mul_right _ hj
        · exact (pageTableIsClear_iff _ _).mp hcl
      have hv1 : descView (m + 1) (s₁.mem (pteAddr f (rel / blockSize (m + 1)))) = .table g := by
        rw [hm1 _ hi]
        exact hv
      have hg1 := h2.tree.forest f () m p _ g (hl1.trans hf) hi hv1
      obtain ⟨s'', h3, h4, h5, -⟩ := h2.tree.unlink (hl1.trans hf) hi hv1 hclear
      rw [h3] at hr
      cases hr
      obtain rfl := h5.unique h'
      have hgive : s₁.pmm.Gives s'.pmm [g] := by
        have hgr : g ≠ root := h.ne_root hg (Nat.lt_of_succ_le (h.level_le hf))
        obtain ⟨hram, hnf⟩ := h2.tree.used g hgr (by simp [hg1])
        rw [freePageTable_pmm h3]
        apply h2.tree.pmm.free (by simp)
        intro x hx
        rw [List.mem_singleton.mp hx]
        exact ⟨hram, hnf⟩
      refine ⟨he.trans (edited_unlink (by rw [hl1]; simp [hf]) hi (by simp [hg1]) (.inl rfl) h4 hgive), ?_⟩
      intro x l q hxf hl hx hclear'
      obtain ⟨hxg, -⟩ := still_labelled (Option.ne_none_iff_exists'.mpr ⟨_, hx⟩)
      rw [Function.update_of_ne hxg] at hx
      refine key x l q hxf hxg hl hx fun j hj => ?_
      rw [← hclear' j hj, h4, write_off s₁ _ fun e => hxf (pteAddr_inj hj hi e).1]
    · rw [if_neg hcl] at hr
      cases hr
      obtain rfl := h2.tree.unique h'
      refine ⟨he, fun x l q hxf hl hx hclear => ?_⟩
      by_cases hxg : x = g
      · rw [hxg] at hclear
        exact absurd (.inr ((pageTableIsClear_iff _ _).mpr hclear)) hcl
      · exact key x l q hxf hxg hl hx hclear
  · rw [if_neg ht] at hr
    have hold : ∀ g, descView n (s.mem (pteAddr f (rel / blockSize n))) ≠ .table g := by
      intro g hg
      obtain ⟨h1, h2, -⟩ := descView_table_iff hg
      refine ht ⟨?_, h2⟩
      rw [indexShift, PAGE_SIZE_SHIFT]
      lia
    have hempty : ∀ g, descView n MMU_PTE_DESCRIPTOR_INVALID ≠ .table g := by
      intro g hg
      rw [descView_zero] at hg
      cases hg
    have hw := h.write hf hi hold hempty (plain_invalid n)
    have hspec := clear_edits (N := N) h hf hc hold
    by_cases h0 : s.mem (pteAddr f (rel / blockSize n)) ≠ 0
    · rw [if_pos h0] at hr
      cases hr
      obtain rfl := hw.unique h'
      exact hspec
    · rw [if_neg h0] at hr
      cases hr
      obtain rfl := h.unique h'
      have hsame := write_same s (pteAddr f (rel / blockSize n))
      rw [not_not.mp h0] at hsame
      rwa [MMU_PTE_DESCRIPTOR_INVALID, hsame] at hspec

theorem unmapLoop_edits {sub : Mmu → Nat → Nat → Nat → Option Mmu} {n : Nat}
    (hsub : ∀ m, n = m + 1 → UnmapSpec root m sub) (hsub' : ∀ m, n = m + 1 → UnmapEdits root m N sub) {f p : Nat} :
    ∀ {rounds : Nat} {s : Mmu} {lab : Nat → Option (Label Unit)} (rel size : Nat), TableTree s root lab →
      lab f = some ⟨(), n, p⟩ → rel + size ≤ blockSize (n + 1) → size = 0 ∨ 512 ≤ rounds + rel / blockSize n →
      unmapLoop sub n (PAGE_SIZE * f) rounds s rel size = some s' → TableTree s' root lab' →
      Edited N s lab s' lab' ∧ Tidy n f (p * blockSize (n + 1) + rel) size s lab s' lab' := by
  intro rounds
  induction rounds with
  | zero =>
    intro s lab rel size h hf hsize hr he h'
    rw [unmapLoop] at he
    cases he
    obtain rfl := h.unique h'
    have h0 : size = 0 := by
      rcases hr with h0 | hr
      · exact h0
      · by_contra hne
        have := (chunk_inEntry (Nat.pos_of_ne_zero hne) hsize).index
        lia
    rw [h0]
    exact ⟨Edited.refl _ _ _, Tidy.refl _ _ _ _ _⟩
  | succ rounds ih =>
    intro s lab rel size h hf hsize hr he h'
    rw [unmapLoop] at he
    by_cases h0 : size = 0
    · rw [if_pos h0] at he
      cases he
      obtain rfl := h.unique h'
      rw [h0]
      exact ⟨Edited.refl _ _ _, Tidy.refl _ _ _ _ _⟩
    · rw [if_neg h0] at he
      have hpos := Nat.pos_of_ne_zero h0
      obtain ⟨s₁, lab₁, h1, h2⟩ := unmapChunk_spec hsub h hf hpos hsize
      obtain ⟨h3, h4⟩ := unmapChunk_edits hsub hsub' h hf hpos hsize h1 h2.tree
      simp only [h1, Option.bind_some] at he
      have hle := chunk_le n rel size
      have hend := chunk_end n rel size
      obtain ⟨h5, h6⟩ := ih (rel + chunkSize n rel size) (size - chunkSize n rel size) h2.tree (h2.self.trans hf)
        (by lia) (by
          rcases hend with e | e
          · left
            lia
          · right
            rw [e, Nat.mul_div_cancel _ (blockSize_pos n)]
            lia) he h'
      rw [← Nat.add_assoc] at h6
      have h7 := h4.trans h6
      rw [Nat.add_sub_cancel' hle] at h7
      exact ⟨h3.trans h5, h7⟩

/-- **`arm64_mmu_unmap_pt`** keeps to its tables, and leaves no empty one in the range. -/
theorem unmapPt_edits (root : Nat) (N : Nat → Nat → Prop) : ∀ n, UnmapEdits root n N (unmapPt n) := by
  intro n
  induction n with
  | zero =>
    intro s lab f p rel size s' lab' h hf hsize hr h'
    rw [unmapPt] at hr
    exact unmapLoop_edits (fun m hm => by cases hm) (fun m hm => by cases hm) rel size h hf hsize
      (.inr (Nat.le_add_right _ _)) hr h'
  | succ n ih =>
    intro s lab f p rel size s' lab' h hf hsize hr h'
    rw [unmapPt] at hr
    refine unmapLoop_edits (fun m hm => ?_) (fun m hm => ?_) rel size h hf hsize (.inr (Nat.le_add_right _ _)) hr h'
    · obtain rfl : n = m := by omega
      exact unmapPt_spec root n
    · obtain rfl : n = m := by omega
      exact ih

/-! ## `arm64_mmu_map_pt` -/

theorem getPageTable_edits (h : TableTree s root lab) {f m p i : Nat} {r : Option Nat}
    (hf : lab f = some ⟨(), m + 1, p⟩) (hi : i < 512) (hN : N m (p * 512 + i))
    (hr : getPageTable s i (PAGE_SIZE * f) = some (s', r)) (h' : TableTree s' root lab') : Edited N s lab s' lab' := by
  have haddr : PAGE_SIZE * f + 8 * i = pteAddr f i := rfl
  rw [getPageTable] at hr
  simp only [haddr] at hr
  rcases h.plain f (m + 1) p hf i hi with hp | hp | hp
  · rw [if_pos hp, allocPageTable] at hr
    rcases h.pmm.allocPage with ⟨g, h1, h2, -⟩ | ⟨h1, h2, -⟩
    · simp only [h1, Option.map_some, Nat.mul_div_cancel_left g (show 0 < PAGE_SIZE by decide)] at hr
      cases hr
      obtain ⟨h3, -, -⟩ := link_spec h hf hi hp h2 rfl
      obtain rfl := h3.unique h'
      refine edited_link (by simp [hf]) hi h2 hN (.inr ?_)
      rw [(table_desc (h.pmm.ram_lt (h2.free g (by simp)).1).2).1]
      decide
    · simp only [h1, Option.map_none] at hr
      cases hr
      obtain rfl := (h.takes h2).unique h'
      exact edited_refused h2
  · rw [hp, leafDescriptor_succ] at hr
    cases hr
    obtain rfl := h.unique h'
    exact Edited.refl _ _ _
  · rw [hp.2] at hr
    cases hr
    obtain rfl := h.unique h'
    exact Edited.refl _ _ _

/-- what else the function does in a table of level `n`: new tables are for its range -/
def MapEdits (root n : Nat) (map : Mmu → Nat → Nat → Nat → Nat → Option (Mmu × Int)) : Prop :=
  ∀ s lab f p rel pa size s' ret lab', TableTree s root lab → lab f = some ⟨(), n, p⟩ →
    rel + size ≤ blockSize (n + 1) → pa < 2 ^ 64 → map s rel pa size (PAGE_SIZE * f) = some (s', ret) →
    TableTree s' root lab' → Edited (fun l q => Meets l q (p * blockSize (n + 1) + rel) size) s lab s' lab'

theorem mapChunk_edits {sub : Mmu → Nat → Nat → Nat → Nat → Option (Mmu × Int)} {attrs n : Nat}
    (hattrs : attrs &&& MMU_PTE_DESCRIPTOR_MASK = 0) (hsub : ∀ m, n = m + 1 → MapSpec root attrs m sub)
    (hsub' : ∀ m, n = m + 1 → MapEdits root m sub) {f p rel pa size : Nat} {more : Bool}
    (h : TableTree s root lab) (hf : lab f = some ⟨(), n, p⟩) (hs : 0 < size)
    (hsize : rel + size ≤ blockSize (n + 1)) (hlt : pa < 2 ^ 64) (hrel : PAGE_SIZE ∣ rel) (hpa : PAGE_SIZE ∣ pa)
    (hd : PAGE_SIZE ∣ size)
    (hr : mapChunk sub attrs n (PAGE_SIZE * f) s rel pa (chunkSize n rel size) = some (s', more))
    (h' : TableTree s' root lab') :
    Edited (fun l q => Meets l q (p * blockSize (n + 1) + rel) (chunkSize n rel size)) s lab s' lab' := by
  have hc := chunk_inEntry hs hsize
  have haddr : PAGE_SIZE * f + 8 * (rel / blockSize n) = pteAddr f (rel / blockSize n) := rfl
  rw [mapChunk] at hr
  simp only [shiftRight_block, vaddrRem_eq, haddr] at hr
  by_cases hcond : (rel ||| pa) &&& (1 <<< indexShift n - 1) ≠ 0 ∨ chunkSize n rel size ≠ 1 <<< indexShift n ∨
      indexShift n > MMU_PTE_DESCRIPTOR_BLOCK_MAX_SHIFT
  · rw [if_pos hcond] at hr
    obtain ⟨m, rfl⟩ : ∃ m, n = m + 1 := by
      apply Nat.exists_eq_succ_of_ne_zero
      rintro rfl
      rcases hcond with hcond | hcond | hcond
      · exact hcond ((or_and_block 0 rel pa).mpr ⟨Nat.mod_eq_zero_of_dvd hrel, Nat.mod_eq_zero_of_dvd hpa⟩)
      · exact hcond ((chunk_page hs hrel hd).trans (shift_block 0).symm)
      · exact absurd hcond (by decide)
    -- the table below covers the first address of the part
    have hN : Meets m (p * 512 + rel / blockSize (m + 1)) (p * blockSize (m + 1 + 1) + rel)
        (chunkSize (m + 1) rel size) := by
      obtain ⟨e1, e2⟩ := hc.within p
      change (p * 512 + rel / blockSize (m + 1)) * blockSize (m + 1) ≤ _ at e1
      change _ ≤ (p * 512 + rel / blockSize (m + 1) + 1) * blockSize (m + 1) at e2
      have hpos := hc.pos
      exact ⟨_, e1, by omega, le_rfl, by omega⟩
    obtain ⟨s₁, r, lab₁, h1, h2, h3, h4, h5⟩ := getPageTable_spec h hf hc.index
    have he := getPageTable_edits h hf hc.index (N := fun l q => Meets l q (p * blockSize (m + 1 + 1) + rel)
      (chunkSize (m + 1) rel size)) hN h1 h2
    rw [h1, Option.bind_some] at hr
    cases r with
    | none =>
      cases hr
      obtain rfl := h2.unique h'
      exact he
    | some a =>
      obtain ⟨g, rfl, hg⟩ := h5 a rfl
      obtain ⟨s₂, ret, lab₂, h6, h7, -⟩ := hsub m rfl s₁ lab₁ g _ (rel % blockSize (m + 1)) pa
        (chunkSize (m + 1) rel size) h2 hg (chunk_below _ _ _) hlt
      simp only [h6, Option.map_some] at hr
      cases hr
      obtain rfl := h7.unique h'
      have he' := hsub' m rfl s₁ lab₁ g _ _ _ _ _ _ _ h2 hg (chunk_below _ _ _) hlt h6 h7
      rw [← rel_split (m + 1)] at he'
      exact he.trans he'
  · rw [if_neg hcond] at hr
    obtain ⟨hc1, hc2⟩ := not_or.mp hcond
    obtain ⟨hm1, hm2⟩ := (or_and_block n rel pa).mp (not_not.mp hc1)
    have hc3 := not_not.mp (not_or.mp hc2).1
    rw [shift_block] at hc3
    by_cases h0 : s.mem (pteAddr f (rel / blockSize n)) ≠ 0
    · rw [if_pos h0] at hr
      cases hr
      obtain rfl := h.unique h'
      exact Edited.refl _ _ _
    · rw [if_neg h0] at hr
      cases hr
      have hle := chunk_le n rel size
      obtain ⟨h1, -⟩ := put_spec h hattrs hf (by omega) hm1 hm2 hlt (not_not.mp h0)
      obtain rfl := h1.unique h'
      refine edited_write (by simp [hf]) hc.index (.inr ?_)
      rw [leaf_type hpa hattrs]
      exact leafDescriptor_ne n

theorem mapLoop_edits {sub : Mmu → Nat → Nat → Nat → Nat → Option (Mmu × Int)} {attrs n : Nat}
    (hattrs : attrs &&& MMU_PTE_DESCRIPTOR_MASK = 0) (hsub : ∀ m, n = m + 1 → MapSpec root attrs m sub)
    (hsub' : ∀ m, n = m + 1 → MapEdits root m sub) {f p : Nat} :
    ∀ {rounds : Nat} {s : Mmu} {lab : Nat → Option (Label Unit)} (rel pa size : Nat) {rest : Nat},
      TableTree s root lab → lab f = some ⟨(), n, p⟩ → rel + size ≤ blockSize (n + 1) → pa < 2 ^ 64 →
      PAGE_SIZE ∣ rel → PAGE_SIZE ∣ pa → PAGE_SIZE ∣ size →
      mapLoop sub attrs n (PAGE_SIZE * f) rounds s rel pa size = some (s', rest) → TableTree s' root lab' →
      Edited (fun l q => Meets l q (p * blockSize (n + 1) + rel) size) s lab s' lab' := by
  intro rounds
  induction rounds with
  | zero =>
    intro s lab rel pa size rest h _ _ _ _ _ _ he h'
    rw [mapLoop] at he
    cases he
    obtain rfl := h.unique h'
    exact Edited.refl _ _ _
  | succ rounds ih =>
    intro s lab rel pa size rest h hf hsize hlt hrel hpa hd he h'
    rw [mapLoop] at he
    by_cases h0 : size = 0
    · rw [if_pos h0] at he
      cases he
      obtain rfl := h.unique h'
      exact Edited.refl _ _ _
    · rw [if_neg h0] at he
      have hpos := Nat.pos_of_ne_zero h0
      obtain ⟨s₁, more, lab₁, h1, h2, h3, -⟩ := mapChunk_spec hattrs hsub h hf hpos hsize hlt hrel hpa hd
      have hle := chunk_le n rel size
      have h4 : Edited (fun l q => Meets l q (p * blockSize (n + 1) + rel) size) s lab s₁ lab₁ :=
        (mapChunk_edits hattrs hsub hsub' h hf hpos hsize hlt hrel hpa hd h1 h2).mono
          fun l q hm => hm.mono le_rfl (by lia)
      simp only [h1, Option.bind_some] at he
      cases more with
      | false =>
        cases he
        obtain rfl := h2.unique h'
        exact h4
      | true =>
        have hca := chunk_aligned (n := n) hrel hd
        have h5 := ih (rel + chunkSize n rel size) (add64 pa (chunkSize n rel size))
          (size - chunkSize n rel size) h2 (h3.self.trans hf) (by lia) (Nat.mod_lt _ (by decide))
          (Nat.dvd_add hrel hca) ((Nat.dvd_mod_iff (by decide)).mpr (Nat.dvd_add hpa hca)) (Nat.dvd_sub hd hca) he h'
        exact h4.trans (h5.mono fun l q hm => hm.mono (by lia) (by lia))

theorem mapBody_edits {sub : Mmu → Nat → Nat → Nat → Nat → Option (Mmu × Int)} {attrs n : Nat}
    (hattrs : attrs &&& MMU_PTE_DESCRIPTOR_MASK = 0) (hsub : ∀ m, n = m + 1 → MapSpec root attrs m sub)
    (hsub' : ∀ m, n = m + 1 → MapEdits root m sub) : MapEdits root n (mapBody sub attrs n) := by
  intro s lab f p rel pa size s' ret lab' h hf hsize hlt hr h'
  rw [mapBody] at hr
  by_cases ha : (rel ||| pa ||| size) &&& (1 <<< PAGE_SIZE_SHIFT - 1) ≠ 0
  · rw [if_pos ha] at hr
    cases hr
    obtain rfl := h.unique h'
    exact Edited.refl _ _ _
  · rw [if_neg ha] at hr
    have e1 := (or_and_block 0 (rel ||| pa) size).mp (not_not.mp ha)
    have e2 := (or_and_block 0 rel pa).mp (by
      rw [and_block]
      exact e1.1)
    have hrel : PAGE_SIZE ∣ rel := Nat.dvd_of_mod_eq_zero e2.1
    have hpa : PAGE_SIZE ∣ pa := Nat.dvd_of_mod_eq_zero e2.2
    have hd : PAGE_SIZE ∣ size := Nat.dvd_of_mod_eq_zero e1.2
    obtain ⟨s₁, rest, lab₁, h1, h2, h3, -, -⟩ :=
      mapLoop_spec hattrs hsub rel pa size h hf hsize hlt hrel hpa hd (.inr (Nat.le_add_right 512 _))
    have h5 := mapLoop_edits hattrs hsub hsub' rel pa size h hf hsize hlt hrel hpa hd h1 h2
    rw [h1, Option.bind_some] at hr
    by_cases h0 : rest = 0
    · rw [if_pos h0] at hr
      cases hr
      obtain rfl := h2.unique h'
      exact h5
    · rw [if_neg h0] at hr
      obtain ⟨s₂, h6, he⟩ := Option.map_eq_some_iff.mp hr
      cases he
      exact h5.trans (unmapPt_edits root _ n s₁ lab₁ f p rel (size - rest) s' lab' h2 (h3.self.trans hf) (by omega)
        h6 h').1

/-- **`arm64_mmu_map_pt`** keeps to its tables, and makes new ones for its range. -/
theorem mapPt_edits (root : Nat) {attrs : Nat} (hattrs : attrs &&& MMU_PTE_DESCRIPTOR_MASK = 0) :
    ∀ n, MapEdits root n (mapPt attrs n) := by
  intro n
  induction n with
  | zero =>
    rw [mapPt]
    exact mapBody_edits hattrs (fun m hm => by cases hm) fun m hm => by cases hm
  | succ n ih =>
    rw [mapPt]
    refine mapBody_edits hattrs (fun m hm => ?_) fun m hm => ?_
    · obtain rfl : n = m := by omega
      exact mapPt_spec root hattrs n
    · obtain rfl : n = m := by omega
      exact ih

/-! ## the calls -/

/-- the flags name one of the three cache policies -/
def CacheOk (flags : Nat) : Prop := cacheAttr flags ≠ none

instance (flags : Nat) : Decidable (CacheOk flags) := inferInstanceAs (Decidable (_ ≠ _))

/-- such flags leave the output address alone -/
theorem attr_outPage {flags : Nat} (h : CacheOk flags) : outPage (mmuFlagsToPteAttr flags) = 0 := by
  obtain ⟨cache, hc⟩ := Option.ne_none_iff_exists'.mp h
  rw [mmuFlagsToPteAttr, hc]
  have hcache : outPage cache = 0 := by
    simp only [cacheAttr] at hc
    split at hc
    · cases hc
      rfl
    · split at hc
      · cases hc
        rfl
      · split at hc
        · cases hc
          rfl
        · cases hc
  have hperm : outPage (permAttr flags) = 0 := by
    simp only [permAttr]
    split
    · rfl
    · split
      · rfl
      · split <;> rfl
  have hAF : outPage MMU_PTE_ATTR_AF = 0 := rfl
  simp only [outPage_or', hcache, hperm, hAF]
  split <;> split <;> rfl

/-- the frame that a leaf gives page `k` -/
def leafPage (q : Nat × Nat) (k : Nat) : Nat := outPage q.2 + k % 512 ^ q.1

/-- the addresses of the leaf of page `k` lie in the range -/
def LeafIn (q : Nat × Nat) (k a size : Nat) : Prop :=
  a ≤ k / 512 ^ q.1 * blockSize q.1 ∧ (k / 512 ^ q.1 + 1) * blockSize q.1 ≤ a + size

/-- the leaves of a mapped range: they lie in it, and lead to its frames -/
theorem LeafOf.page {attrs a f c k : Nat} {r : Option (Nat × Nat)} (hattrs : outPage attrs = 0) (ha : PAGE_SIZE ∣ a)
    (hf : f + c ≤ 2 ^ 36) (h : LeafOf attrs a (PAGE_SIZE * f) (c * PAGE_SIZE) k r) :
    ∃ q, r = some q ∧ LeafIn q k a (c * PAGE_SIZE) ∧ ∃ j < c, leafPage q k = f + j := by
  obtain ⟨l, b, rfl, h2, h3, h4, h5⟩ := h
  refine ⟨_, rfl, ⟨h2, h3⟩, ?_⟩
  obtain ⟨m, rfl⟩ := ha
  have hb : PAGE_SIZE ∣ b := Nat.dvd_trans (page_block l) h5
  have hpos : 0 < 512 ^ l := Nat.pow_pos (by decide)
  have hk := Nat.div_add_mod k (512 ^ l)
  have hmod := Nat.mod_lt k hpos
  have e1 : k / 512 ^ l * blockSize l = PAGE_SIZE * (k / 512 ^ l * 512 ^ l) := by
    rw [blockSize, Nat.mul_left_comm]
  have e2 : (k / 512 ^ l + 1) * blockSize l = PAGE_SIZE * (k / 512 ^ l * 512 ^ l + 512 ^ l) := by
    rw [blockSize, Nat.mul_left_comm, Nat.succ_mul]
  rw [e1] at h2 h4
  rw [e2] at h3
  rw [Nat.mul_comm (512 ^ l)] at hk
  generalize k / 512 ^ l * 512 ^ l = x at hk h2 h3 h4
  simp only [PAGE_SIZE] at h2 h3 h4
  have e3 : b = PAGE_SIZE * (f + (x - m)) := by
    rw [h4, add64, PAGE_SIZE, Nat.mod_eq_of_lt (by lia)]
    lia
  have e4 := outPage_leaf (l := l) hattrs hb
  rw [Nat.mod_eq_of_lt (by rw [e3, PAGE_SIZE]; lia), e3] at e4
  have e5 := Nat.eq_of_mul_eq_mul_left (by decide) e4
  refine ⟨x - m + k % 512 ^ l, by lia, ?_⟩
  unfold leafPage
  dsimp only
  rw [← e3] at e5
  lia

/-- what `arch_mmu_map` does to the lookups of its address space -/
def MapLooks (s s' : Mmu) (root vaddr paddr count flags : Nat) : Prop :=
  (∀ k < PAGES, look s' root k = look s root k) ∨
    PAGE_SIZE ∣ vaddr ∧ Maps (mmuFlagsToPteAttr flags) vaddr paddr (count * PAGE_SIZE) (look s root) (look s' root)

/-- **`arch_mmu_map`** -/
theorem archMmuMap_spec (h : TableTree s root lab) {aspace : ArchAspace} (ha : aspace.ttVirt = PAGE_SIZE * root)
    (vaddr : Nat) {paddr : Nat} (count flags : Nat) (hp : paddr < 2 ^ 64) :
    ∃ s' ret lab', archMmuMap s aspace vaddr paddr count flags = some (s', ret) ∧ TableTree s' root lab' ∧
      Edited (fun l q => PAGE_SIZE ∣ vaddr ∧ Meets l q vaddr (count * PAGE_SIZE)) s lab s' lab' ∧
      MapLooks s s' root vaddr paddr count flags := by
  have hno : ∀ e : Int, ∃ s' ret lab', some (s, e) = some (s', ret) ∧ TableTree s' root lab' ∧
      Edited (fun l q => PAGE_SIZE ∣ vaddr ∧ Meets l q vaddr (count * PAGE_SIZE)) s lab s' lab' ∧
      MapLooks s s' root vaddr paddr count flags :=
    fun e => ⟨s, e, lab, rfl, h, Edited.refl _ _ _, .inl fun _ _ => rfl⟩
  rw [archMmuMap, ha]
  split
  · exact hno _
  split
  · exact hno _
  rename_i hal
  have hv : PAGE_SIZE ∣ vaddr := by
    have := (not_or.mp hal).1
    simp only [isPageAligned, beq_iff_eq, not_not] at this
    exact Nat.dvd_of_mod_eq_zero this
  split
  · exact hno _
  rw [arm64MmuMap]
  split
  · exact hno _
  rename_i ho
  have hr := inRange_of (Bool.not_eq_true _ |>.mp ho)
  split
  · exact hno _
  obtain ⟨s', ret, lab', h1, h2, -, h3, h4⟩ := mapPt_spec root (attr_type flags) topLevel s lab root 0 vaddr paddr
    (count * PAGE_SIZE) h h.rootLab hr hp
  have h5 := mapPt_edits root (attr_type flags) topLevel s lab root 0 vaddr paddr (count * PAGE_SIZE) s' ret lab' h
    h.rootLab hr hp h1 h2
  rw [Nat.zero_mul, Nat.zero_add] at h3 h5
  refine ⟨s', ret, lab', h1, h2, h5.mono fun l q hm => ⟨hv, hm⟩, ?_⟩
  by_cases h0 : ret = 0
  · exact .inr ⟨hv, h3 h0⟩
  · exact .inl (h4 h0)

/-- **`arch_mmu_unmap`**: an error, or the range is unmapped and no table of it is left empty. -/
theorem archMmuUnmap_spec (h : TableTree s root lab) (hroot : root ≠ 0) {aspace : ArchAspace}
    (ha : aspace.ttVirt = PAGE_SIZE * root) {vaddr : Nat} (hval : isValidVaddr aspace vaddr = true) (count : Nat)
    (N : Nat → Nat → Prop) : (archMmuUnmap s aspace vaddr count = some (s, ERR_INVALID_ARGS) ∧
      (¬ PAGE_SIZE ∣ vaddr ∨ 2 ^ MMU_SIZE_SHIFT < vaddr + count * PAGE_SIZE)) ∨
    ∃ s' lab', archMmuUnmap s aspace vaddr count = some (s', 0) ∧ TableTree s' root lab' ∧ Edited N s lab s' lab' ∧
      (∀ k < PAGES, look s' root k = cut PAGE_SIZE 512 (look s root) vaddr (count * PAGE_SIZE) k) ∧
      (∀ g, lab' g ≠ none → lab' g = lab g) ∧
      ∀ g l q, g ≠ root → lab' g = some ⟨(), l, q⟩ → Clear s' g → ¬ Meets l q vaddr (count * PAGE_SIZE) := by
  rw [archMmuUnmap, if_neg (by simp [hval]), ha]
  by_cases hal : PAGE_SIZE ∣ vaddr
  · rw [if_neg (by simpa [isPageAligned] using Nat.mod_eq_zero_of_dvd hal)]
    by_cases hr : vaddr + count * PAGE_SIZE ≤ 2 ^ MMU_SIZE_SHIFT
    · have hne : PAGE_SIZE * root ≠ 0 := Nat.mul_ne_zero (by decide) hroot
      obtain ⟨s', lab', h1, h2⟩ := unmapPt_spec root topLevel s lab root 0 vaddr (count * PAGE_SIZE) h h.rootLab hr
      obtain ⟨h3, h4⟩ := unmapPt_edits root N topLevel s lab root 0 vaddr (count * PAGE_SIZE) s' lab' h h.rootLab hr h1
        h2.tree
      have h5 := h2.cuts
      rw [Nat.zero_mul, Nat.zero_add] at h4 h5
      rw [arm64MmuUnmap, outOfRange_of hr, if_neg Bool.false_ne_true, if_neg hne, h1]
      refine .inr ⟨s', lab', rfl, h2.tree, h3, h5, h2.sub, fun g l q hg hx hclear => ?_⟩
      have hl := h2.tree.level_le hx
      have hlt : l < topLevel := by
        refine Nat.lt_of_le_of_ne hl ?_
        rintro rfl
        exact hg (h2.tree.eq_root hx)
      exact (h4 g l q hg hl hx hclear).2.2 hlt
    · rw [arm64MmuUnmap, if_pos]
      · exact .inl ⟨rfl, .inr (by omega)⟩
      · rw [outOfRange, decide_eq_true_eq]
        simp only [sub64, MMU_SIZE_SHIFT] at hr ⊢
        omega
  · rw [if_pos (by simpa [isPageAligned, Nat.dvd_iff_mod_eq_zero] using hal)]
    exact .inl ⟨rfl, .inl hal⟩

/-- **The tables of an address space** that nobody touches. -/
theorem TableTree.frame (h : TableTree s root lab) (hw : s'.pmm.Wf) (hram : ∀ p, s'.pmm.Ram p ↔ s.pmm.Ram p)
    (hk : ∀ p, lab p ≠ none → s'.pmm.nonfree p = s.pmm.nonfree p ∧
      ∀ i < 512, s'.mem (pteAddr p i) = s.mem (pteAddr p i)) :
    TableTree s' root lab ∧ ∀ k < PAGES, look s' root k = look s root k := by
  have hA : AgreeOn 512 lab (descStore s.mem) (descStore s'.mem) := by
    intro l f j hj hf
    rw [descStore, descStore, (hk f hf).2 j hj]
  refine ⟨⟨hw, h.rootLab, fun hr => ?_, fun f hf hl => ?_, h.forest.agree hA, fun g t l p hg => ?_,
    fun f l p hf i hi => ?_⟩, fun k hk => ?_⟩
  · rw [(hk root (by simp [h.rootLab])).1]
    exact h.rootPage ((hram root).mp hr)
  · obtain ⟨h1, h2⟩ := h.used f hf hl
    rw [(hk f hl).1]
    exact ⟨(hram f).mpr h1, h2⟩
  · obtain ⟨h1, h2, h3⟩ := h.linked g t l p hg
    refine ⟨h1, h2, ?_⟩
    rw [slot_agree h.forest (by decide) hA (t := ()) (by rw [h1, h.rootLab])]
    exact h3
  · rw [(hk f (by simp [hf])).2 i hi]
    exact h.plain f l p hf i hi
  · exact walk_agree h.forest (by decide) hA (t := ()) (by rw [div_PAGES hk, h.rootLab])

end Stage1
end LkHv
