import LkHv.Kernel.VmmPages

/-!
# Where the pages are

A page of the pmm is free, or it is on the page list of one region, or it is a page table of one address space, or
others took it.  In the middle of a call it may be on the `page_list` of the call.

* `Holder`, `HoldsIn`   who has a page;
* `Ledger`              the invariant, with the pages that the call at hand has;
* `Ledger.take`, `Ledger.give`   pages come from the pmm and go back;
* `Ledger.edit`         the tables of one address space change;
* `Ledger.move`         pages go from the call to a region, or back;
* `Ledger.remove`       an address space goes.
-/

namespace LkHv
namespace VmmPages
open Radix Stage1 Vmm Vmm.Aspace

/-- who has a page that is not free -/
inductive Holder
  | call
  | others
  | table (i : Nat)
  | region (i base : Nat)

/-- `held` is the call's own list, `lab` the tables -/
def HoldsIn (s : Vm) (held : List Nat) (lab : Nat → Nat → Option (Label Unit)) (p : Nat) : Holder → Prop
  | .call => p ∈ held
  | .others => s.others p = true
  | .table i => i ∈ s.ids ∧ lab i p ≠ none
  | .region i b => i ∈ s.ids ∧ p ∈ (s.space i).lists b

/-- **The ledger** -/
structure Ledger (s : Vm) (held : List Nat) (root : Nat → Nat) (lab : Nat → Nat → Option (Label Unit)) : Prop where
  wf : s.mmu.pmm.Wf
  ids : s.ids.Nodup
  space : ∀ i ∈ s.ids, SpaceInv s.mmu (s.space i) (root i) (lab i)
  once : ∀ p x y, HoldsIn s held lab p x → HoldsIn s held lab p y → x = y
  taken : ∀ p x, HoldsIn s held lab p x → s.mmu.pmm.Ram p → s.mmu.pmm.nonfree p = true
  all : ∀ p, s.mmu.pmm.Ram p → s.mmu.pmm.nonfree p = true → ∃ x, HoldsIn s held lab p x
  ram : ∀ p x, HoldsIn s held lab p x → (∀ i, x ≠ .table i) → s.mmu.pmm.Ram p
  heldNodup : held.Nodup
  nodup : ∀ i ∈ s.ids, ∀ b, ((s.space i).lists b).Nodup
  /-- an address space that can be freed has its root from the pmm -/
  user : ∀ i ∈ s.ids, (s.space i).arch.kernel = false → s.mmu.pmm.Ram (root i)

section
variable {s s' : Vm} {held : List Nat} {root : Nat → Nat} {lab : Nat → Nat → Option (Label Unit)} {i : Nat}

/-- pages that are free have no holder -/
theorem Ledger.unheld (h : Ledger s held root lab) {p : Nat} (hr : s.mmu.pmm.Ram p)
    (hf : s.mmu.pmm.nonfree p = false) (x : Holder) : ¬ HoldsIn s held lab p x := by
  intro hx
  rw [h.taken p x hx hr] at hf
  cases hf

/-- the tables of all address spaces stay when the allocator moves pages that are no tables -/
theorem Ledger.space_pmm (h : Ledger s held root lab) {pmm : Pmm} (hw : pmm.Wf) (hram : ∀ p, pmm.Ram p ↔ s.mmu.pmm.Ram p)
    (hn : ∀ i ∈ s.ids, ∀ p, lab i p ≠ none → pmm.nonfree p = s.mmu.pmm.nonfree p) :
    ∀ i ∈ s.ids, SpaceInv (s.setPmm pmm).mmu (s.space i) (root i) (lab i) := fun i hi =>
  (h.space i hi).frame hw hram fun p hp => ⟨hn i hi p hp, fun _ _ => rfl⟩

/-- **Pages are taken** from the pmm. -/
theorem Ledger.take (h : Ledger s [] root lab) {pmm : Pmm} {pgs : List Nat} (ht : s.mmu.pmm.Takes pmm pgs) :
    Ledger (s.setPmm pmm) pgs root lab := by
  have hfree : ∀ p ∈ pgs, ∀ x, ¬ HoldsIn s [] lab p x := fun p hp x => h.unheld (ht.free p hp).1 (ht.free p hp).2 x
  -- who had a page still has it
  have hold : ∀ p x, HoldsIn (s.setPmm pmm) pgs lab p x ↔ x = .call ∧ p ∈ pgs ∨ HoldsIn s [] lab p x := by
    intro p x
    cases x with
    | call => simp [HoldsIn]
    | others => exact ⟨.inr, fun hx => hx.resolve_left nofun⟩
    | table i => exact ⟨.inr, fun hx => hx.resolve_left nofun⟩
    | region i b => exact ⟨.inr, fun hx => hx.resolve_left nofun⟩
  have hn : ∀ p, pmm.nonfree p = true ↔ s.mmu.pmm.nonfree p = true ∨ p ∈ pgs := by
    intro p
    rw [ht.nonfree]
    simp [setNonfree]
  refine ⟨ht.wf, h.ids, ?_, fun p x y hx hy => ?_, fun p x hx hr => ?_, fun p hr hp => ?_, fun p x hx hne => ?_,
    ht.nodup, h.nodup, fun i hi hk => (ht.ram _).mpr (h.user i hi hk)⟩
  · refine h.space_pmm ht.wf ht.ram fun i hi p hp => ?_
    rw [ht.nonfree]
    have : p ∉ pgs := fun hm => hfree p hm (.table i) ⟨hi, hp⟩
    simp [setNonfree, this]
  · rcases (hold p x).mp hx with ⟨rfl, hm⟩ | hx
    · exact ((hold p y).mp hy).elim (fun hy => hy.1.symm) fun hy => absurd hy (hfree p hm y)
    · rcases (hold p y).mp hy with ⟨rfl, hm⟩ | hy
      · exact absurd hx (hfree p hm x)
      · exact h.once p x y hx hy
  · refine (hn p).mpr (((hold p x).mp hx).elim (fun hx => .inr hx.2) fun hx => .inl ?_)
    exact h.taken p x hx ((ht.ram p).mp hr)
  · rcases (hn p).mp hp with hp | hp
    · obtain ⟨x, hx⟩ := h.all p ((ht.ram p).mp hr) hp
      exact ⟨x, (hold p x).mpr (.inr hx)⟩
    · exact ⟨.call, hp⟩
  · rcases (hold p x).mp hx with ⟨-, hm⟩ | hx
    · exact (ht.ram p).mpr (ht.free p hm).1
    · exact (ht.ram p).mpr (h.ram p x hx hne)

/-- **Pages are given back.** -/
theorem Ledger.give {keep : List Nat} (h : Ledger s (held ++ keep) root lab) :
    Ledger (s.setPmm (pmmFree s.mmu.pmm held)) keep root lab ∧ s.mmu.pmm.Gives (pmmFree s.mmu.pmm held) held := by
  obtain ⟨n1, n2, n3⟩ := List.nodup_append.mp h.heldNodup
  have hg : s.mmu.pmm.Gives (pmmFree s.mmu.pmm held) held := by
    refine h.wf.free n1 fun p hp => ?_
    have hm : HoldsIn s (held ++ keep) lab p .call := List.mem_append_left _ hp
    have hr := h.ram p .call hm nofun
    exact ⟨hr, h.taken p .call hm hr⟩
  have hn : ∀ p, (pmmFree s.mmu.pmm held).nonfree p = true ↔ s.mmu.pmm.nonfree p = true ∧ p ∉ held := by
    intro p
    rw [hg.nonfree]
    simp
  have hold : ∀ p x, HoldsIn (s.setPmm (pmmFree s.mmu.pmm held)) keep lab p x ↔
      HoldsIn s (held ++ keep) lab p x ∧ p ∉ held := by
    intro p x
    have hmem : p ∈ held → HoldsIn s (held ++ keep) lab p .call := fun hp => List.mem_append_left _ hp
    cases x with
    | call =>
      constructor
      · exact fun hp => ⟨List.mem_append_right _ hp, fun hm => n3 p hm p hp rfl⟩
      · exact fun hp => (List.mem_append.mp hp.1).resolve_left hp.2
    | others => exact ⟨fun hx => ⟨hx, fun hm => nomatch h.once p .others .call hx (hmem hm)⟩, fun hx => hx.1⟩
    | table i => exact ⟨fun hx => ⟨hx, fun hm => nomatch h.once p (.table i) .call hx (hmem hm)⟩, fun hx => hx.1⟩
    | region i b => exact ⟨fun hx => ⟨hx, fun hm => nomatch h.once p (.region i b) .call hx (hmem hm)⟩, fun hx => hx.1⟩
  refine ⟨⟨hg.wf, h.ids, ?_, fun p x y hx hy => ?_, fun p x hx hr => ?_, fun p hr hp => ?_, fun p x hx hne => ?_, n2,
    h.nodup, fun i hi hk => (hg.ram _).mpr (h.user i hi hk)⟩, hg⟩
  · refine h.space_pmm hg.wf hg.ram fun i hi p hp => ?_
    have : p ∉ held := fun hm => nomatch h.once p (.table i) .call ⟨hi, hp⟩ (List.mem_append_left _ hm)
    rw [hg.nonfree]
    simp [this]
  · exact h.once p x y ((hold p x).mp hx).1 ((hold p y).mp hy).1
  · obtain ⟨h1, h2⟩ := (hold p x).mp hx
    exact (hn p).mpr ⟨h.taken p x h1 ((hg.ram p).mp hr), h2⟩
  · obtain ⟨h1, h2⟩ := (hn p).mp hp
    obtain ⟨x, hx⟩ := h.all p ((hg.ram p).mp hr) h1
    exact ⟨x, (hold p x).mpr ⟨hx, h2⟩⟩
  · exact (hg.ram p).mpr (h.ram p x ((hold p x).mp hx).1 hne)

/-- **The tables of one address space change**, and its list of regions; its page lists stay. -/
theorem Ledger.edit (h : Ledger s held root lab) (hi : i ∈ s.ids) {mmu : Mmu} {sp : Space}
    {lb : Nat → Option (Label Unit)} {N : Nat → Nat → Prop} (hs : SpaceInv mmu sp (root i) lb)
    (he : Edited N s.mmu (lab i) mmu lb) (hl : sp.lists = (s.space i).lists) (harch : sp.arch = (s.space i).arch) :
    Ledger (s.setSpace i mmu sp) held root (Function.update lab i lb) := by
  have hlists : ∀ j, ((s.setSpace i mmu sp).space j).lists = (s.space j).lists := by
    intro j
    show (Function.update s.space i sp j).lists = _
    by_cases e : j = i
    · rw [e, Function.update_self]
      exact hl
    · rw [Function.update_of_ne e]
  -- a page that others have is not touched
  have hother : ∀ p x, HoldsIn s held lab p x → x ≠ .table i → Other s.mmu (lab i) p := by
    intro p x hx hne
    refine ⟨?_, h.taken p x hx⟩
    by_contra hp
    exact hne (h.once p x (.table i) hx ⟨hi, hp⟩)
  have hold : ∀ p x, x ≠ .table i →
      (HoldsIn (s.setSpace i mmu sp) held (Function.update lab i lb) p x ↔ HoldsIn s held lab p x) := by
    intro p x hne
    cases x with
    | call => exact Iff.rfl
    | others => exact Iff.rfl
    | table j =>
      have e : j ≠ i := fun e => hne (by rw [e])
      show j ∈ s.ids ∧ Function.update lab i lb j p ≠ none ↔ _
      rw [Function.update_of_ne e]
      exact Iff.rfl
    | region j b =>
      show j ∈ s.ids ∧ p ∈ ((s.setSpace i mmu sp).space j).lists b ↔ _
      rw [hlists j]
      exact Iff.rfl
  have hnew : ∀ p, HoldsIn (s.setSpace i mmu sp) held (Function.update lab i lb) p (.table i) ↔ lb p ≠ none := by
    intro p
    show i ∈ s.ids ∧ Function.update lab i lb i p ≠ none ↔ _
    rw [Function.update_self]
    exact ⟨fun hx => hx.2, fun hx => ⟨hi, hx⟩⟩
  -- a table is not what another had
  have hexcl : ∀ p x, lb p ≠ none → x ≠ .table i → ¬ HoldsIn s held lab p x := fun p x hp hne hx =>
    hp (he.kept p (hother p x hx hne)).1
  refine ⟨hs.tree.pmm, h.ids, fun j hj => ?_, fun p x y hx hy => ?_, fun p x hx hr => ?_, fun p hr hp => ?_,
    fun p x hx hne => ?_, h.heldNodup, fun j hj b => ?_, fun j hj hk => ?_⟩
  · by_cases e : j = i
    · subst e
      show SpaceInv mmu (Function.update s.space j sp j) (root j) (Function.update lab j lb j)
      rw [Function.update_self, Function.update_self]
      exact hs
    · show SpaceInv mmu (Function.update s.space i sp j) (root j) (Function.update lab i lb j)
      rw [Function.update_of_ne e, Function.update_of_ne e]
      refine (h.space j hj).frame hs.tree.pmm he.ram fun p hp => ?_
      have ho := hother p (.table j) ⟨hj, hp⟩ fun e' => e (Holder.table.inj e')
      exact (he.kept p ho).2
  · by_cases ex : x = .table i
    · by_cases ey : y = .table i
      · rw [ex, ey]
      · rw [ex] at hx
        exact absurd ((hold p y ey).mp hy) (hexcl p y ((hnew p).mp hx) ey)
    · by_cases ey : y = .table i
      · rw [ey] at hy
        exact absurd ((hold p x ex).mp hx) (hexcl p x ((hnew p).mp hy) ex)
      · exact h.once p x y ((hold p x ex).mp hx) ((hold p y ey).mp hy)
  · by_cases ex : x = .table i
    · rw [ex] at hx
      by_cases e : p = root i
      · rw [e] at hr ⊢
        exact hs.tree.rootPage hr
      · exact (hs.tree.used p e ((hnew p).mp hx)).2
    · have hx' := (hold p x ex).mp hx
      show mmu.pmm.nonfree p = true
      rw [(he.kept p (hother p x hx' ex)).2.1]
      exact h.taken p x hx' ((he.ram p).mp hr)
  · rcases he.taken p hp with h1 | ⟨h1, h2⟩
    · exact ⟨.table i, (hnew p).mpr h1⟩
    · obtain ⟨x, hx⟩ := h.all p ((he.ram p).mp hr) h1
      have ex : x ≠ .table i := by
        rintro rfl
        exact hx.2 h2
      exact ⟨x, (hold p x ex).mpr hx⟩
  · exact (he.ram p).mpr (h.ram p x ((hold p x (hne i)).mp hx) hne)
  · rw [hlists j]
    exact h.nodup j hj b
  · change (Function.update s.space i sp j).arch.kernel = false at hk
    refine (he.ram _).mpr (h.user j hj ?_)
    by_cases e : j = i
    · subst e
      rw [Function.update_self, harch] at hk
      exact hk
    · rwa [Function.update_of_ne e] at hk

/-- **Pages move** between the list of the call and the list of a region. -/
theorem Ledger.move (h : Ledger s held root lab) (hi : i ∈ s.ids) {vm : Vmm.Aspace} {b : Nat} {new held' : List Nat}
    (hs : SpaceInv s.mmu { s.space i with vm, lists := Function.update (s.space i).lists b new } (root i) (lab i))
    (hp : List.Perm (new ++ held') ((s.space i).lists b ++ held)) :
    Ledger (s.setSpace i s.mmu { s.space i with vm, lists := Function.update (s.space i).lists b new }) held' root
      lab := by
  have hd : ((s.space i).lists b ++ held).Nodup := by
    refine List.nodup_append.mpr ⟨h.nodup i hi b, h.heldNodup, fun p hp q hq e => ?_⟩
    exact nomatch h.once p (.region i b) .call ⟨hi, hp⟩ (show p ∈ held from e ▸ hq)
  obtain ⟨n1, n2, n3⟩ := List.nodup_append.mp (hp.nodup_iff.mpr hd)
  have hmem : ∀ p, p ∈ new ∨ p ∈ held' ↔ p ∈ (s.space i).lists b ∨ p ∈ held := by
    intro p
    rw [← List.mem_append, ← List.mem_append]
    exact hp.mem_iff
  generalize hsp : ({ s.space i with vm, lists := Function.update (s.space i).lists b new } : Space) = sp at hs ⊢
  have hlists : sp.lists = Function.update (s.space i).lists b new := by rw [← hsp]
  have harch : sp.arch = (s.space i).arch := by rw [← hsp]
  have hself : ((s.setSpace i s.mmu sp).space i).lists = Function.update (s.space i).lists b new := by
    show (Function.update s.space i sp i).lists = _
    rw [Function.update_self, hlists]
  have hoff : ∀ j, j ≠ i → (s.setSpace i s.mmu sp).space j = s.space j := fun j e => Function.update_of_ne e _ _
  -- the two holders that pages move between
  have hsame : ∀ p x, x ≠ .call → x ≠ .region i b →
      (HoldsIn (s.setSpace i s.mmu sp) held' lab p x ↔ HoldsIn s held lab p x) := by
    intro p x h1 h2
    cases x with
    | call => exact absurd rfl h1
    | others => exact Iff.rfl
    | table j => exact Iff.rfl
    | region j c =>
      show j ∈ s.ids ∧ p ∈ ((s.setSpace i s.mmu sp).space j).lists c ↔ _
      by_cases e : j = i
      · have ec : c ≠ b := fun ec => h2 (by rw [e, ec])
        rw [e, hself, Function.update_of_ne ec]
        exact Iff.rfl
      · rw [hoff j e]
        exact Iff.rfl
  have hregion : ∀ p, HoldsIn (s.setSpace i s.mmu sp) held' lab p (.region i b) ↔ p ∈ new := by
    intro p
    show i ∈ s.ids ∧ p ∈ ((s.setSpace i s.mmu sp).space i).lists b ↔ _
    rw [hself, Function.update_self]
    exact ⟨fun hx => hx.2, fun hx => ⟨hi, hx⟩⟩
  have hto : ∀ p x, HoldsIn (s.setSpace i s.mmu sp) held' lab p x → x = .call ∨ x = .region i b →
      ∃ y, (y = .call ∨ y = .region i b) ∧ HoldsIn s held lab p y := by
    intro p x hx hm
    have : p ∈ new ∨ p ∈ held' := by
      rcases hm with rfl | rfl
      · exact .inr hx
      · exact .inl ((hregion p).mp hx)
    rcases (hmem p).mp this with h1 | h1
    · exact ⟨.region i b, .inr rfl, hi, h1⟩
    · exact ⟨.call, .inl rfl, h1⟩
  have hold : ∀ p x, HoldsIn (s.setSpace i s.mmu sp) held' lab p x →
      ∃ y, HoldsIn s held lab p y ∧ (x = y ∨ (x = .call ∨ x = .region i b) ∧ (y = .call ∨ y = .region i b)) := by
    intro p x hx
    by_cases hm : x = .call ∨ x = .region i b
    · obtain ⟨y, h1, h2⟩ := hto p x hx hm
      exact ⟨y, h2, .inr ⟨hm, h1⟩⟩
    · obtain ⟨h1, h2⟩ := not_or.mp hm
      exact ⟨x, (hsame p x h1 h2).mp hx, .inl rfl⟩
  refine ⟨h.wf, h.ids, fun j hj => ?_, fun p x y hx hy => ?_, fun p x hx hr => ?_, fun p hr hn => ?_,
    fun p x hx hne => ?_, n2, fun j hj c => ?_, fun j hj hk => ?_⟩
  · by_cases e : j = i
    · rw [e]
      show SpaceInv s.mmu (Function.update s.space i sp i) _ _
      rw [Function.update_self]
      exact hs
    · rw [hoff j e]
      exact h.space j hj
  · obtain ⟨x', hx', ex⟩ := hold p x hx
    obtain ⟨y', hy', ey⟩ := hold p y hy
    have he := h.once p x' y' hx' hy'
    have hboth : ¬ (p ∈ new ∧ p ∈ held') := fun hb => n3 p hb.1 p hb.2 rfl
    rcases ex with rfl | ⟨ex, ex'⟩ <;> rcases ey with rfl | ⟨ey, ey'⟩
    · exact he
    · rw [he] at hx
      rcases ey with rfl | rfl <;> rcases ey' with rfl | rfl
      · exact he
      · exact absurd ⟨(hregion p).mp hx, hy⟩ hboth
      · exact absurd ⟨(hregion p).mp hy, hx⟩ hboth
      · exact he
    · rw [← he] at hy
      rcases ex with rfl | rfl <;> rcases ex' with rfl | rfl
      · exact he
      · exact absurd ⟨(hregion p).mp hy, hx⟩ hboth
      · exact absurd ⟨(hregion p).mp hx, hy⟩ hboth
      · exact he
    · rcases ex with rfl | rfl <;> rcases ey with rfl | rfl
      · rfl
      · exact absurd ⟨(hregion p).mp hy, hx⟩ hboth
      · exact absurd ⟨(hregion p).mp hx, hy⟩ hboth
      · rfl
  · obtain ⟨y, hy, -⟩ := hold p x hx
    exact h.taken p y hy hr
  · obtain ⟨x, hx⟩ := h.all p hr hn
    by_cases hm : x = .call ∨ x = .region i b
    · have : p ∈ (s.space i).lists b ∨ p ∈ held := by
        rcases hm with rfl | rfl
        · exact .inr hx
        · exact .inl hx.2
      rcases (hmem p).mpr this with h1 | h1
      · exact ⟨.region i b, (hregion p).mpr h1⟩
      · exact ⟨.call, h1⟩
    · obtain ⟨h1, h2⟩ := not_or.mp hm
      exact ⟨x, (hsame p x h1 h2).mpr hx⟩
  · obtain ⟨y, hy, ey⟩ := hold p x hx
    refine h.ram p y hy fun j e => ?_
    rcases ey with rfl | ⟨-, rfl | rfl⟩
    · exact hne j e
    · cases e
    · cases e
  · by_cases e : j = i
    · rw [e, hself]
      by_cases ec : c = b
      · rw [ec, Function.update_self]
        exact n1
      · rw [Function.update_of_ne ec]
        exact h.nodup i hi c
    · rw [hoff j e]
      exact h.nodup j hj c
  · by_cases e : j = i
    · subst e
      change (Function.update s.space j sp j).arch.kernel = false at hk
      rw [Function.update_self, harch] at hk
      exact h.user j hi hk
    · rw [hoff j e] at hk
      exact h.user j hj hk

/-- **An address space goes**, with its root; it has no regions any more. -/
theorem Ledger.remove (h : Ledger s held root lab) (hi : i ∈ s.ids) (hk : (s.space i).arch.kernel = false)
    (hl : (s.space i).vm.regionList = []) (space : Nat → Space) (hspace : ∀ j, j ≠ i → space j = s.space j) :
    Ledger { s with ids := s.ids.erase i, space } (held ++ [root i]) root lab := by
  have hmem : ∀ j, j ∈ s.ids.erase i ↔ j ≠ i ∧ j ∈ s.ids := fun j => h.ids.mem_erase_iff
  have hs := h.space i hi
  have htable : ∀ p, lab i p ≠ none ↔ p = root i := by
    intro p
    constructor
    · intro hp
      by_contra hne
      obtain ⟨⟨⟨⟩, l, q⟩, hx⟩ := Option.ne_none_iff_exists'.mp hp
      obtain ⟨r, hr, -⟩ := hs.tables p l q hx hne
      rw [hl] at hr
      cases hr
    · rintro rfl
      rw [hs.tree.rootLab]
      nofun
  have hlists : ∀ b, (s.space i).lists b = [] := by
    intro b
    by_contra hne
    obtain ⟨r, hr, -⟩ := hs.lists b hne
    rw [hl] at hr
    cases hr
  have hroot : HoldsIn s held lab (root i) (.table i) := ⟨hi, (htable _).mpr rfl⟩
  have hold : ∀ p x, HoldsIn { s with ids := s.ids.erase i, space } (held ++ [root i]) lab p x ↔
      x = .call ∧ p = root i ∨ HoldsIn s held lab p x ∧ ∀ b, x ≠ .table i ∧ x ≠ .region i b := by
    intro p x
    cases x with
    | call => simp [HoldsIn, or_comm]
    | others => simp [HoldsIn]
    | table j =>
      show j ∈ s.ids.erase i ∧ lab j p ≠ none ↔ _
      rw [hmem]
      simp [HoldsIn, and_comm, and_assoc]
    | region j c =>
      show j ∈ s.ids.erase i ∧ p ∈ (space j).lists c ↔ _
      rw [hmem]
      constructor
      · rintro ⟨⟨h1, h2⟩, h3⟩
        rw [hspace j h1] at h3
        exact .inr ⟨⟨h2, h3⟩, fun b => ⟨nofun, fun e => h1 (Holder.region.inj e).1⟩⟩
      · rintro (⟨h1, -⟩ | ⟨⟨h1, h2⟩, h3⟩)
        · cases h1
        · have hne : j ≠ i := fun e => (h3 c).2 (by rw [e])
          rw [hspace j hne]
          exact ⟨⟨hne, h1⟩, h2⟩
  refine ⟨h.wf, h.ids.erase i, fun j hj => ?_, fun p x y hx hy => ?_, fun p x hx hr => ?_, fun p hr hn => ?_,
    fun p x hx hne => ?_, ?_, fun j hj c => ?_, fun j hj hkj => ?_⟩
  · obtain ⟨h1, h2⟩ := (hmem j).mp hj
    show SpaceInv s.mmu (space j) _ _
    rw [hspace j h1]
    exact h.space j h2
  · rcases (hold p x).mp hx with ⟨rfl, rfl⟩ | ⟨h1, h2⟩ <;> rcases (hold _ y).mp hy with ⟨rfl, e⟩ | ⟨h3, h4⟩
    · rfl
    · exact absurd (h.once _ y _ h3 hroot) (h4 0).1
    · subst e
      exact absurd (h.once _ x _ h1 hroot) (h2 0).1
    · exact h.once p x y h1 h3
  · rcases (hold p x).mp hx with ⟨-, rfl⟩ | ⟨h1, -⟩
    · exact h.taken _ _ hroot hr
    · exact h.taken p x h1 hr
  · obtain ⟨x, hx⟩ := h.all p hr hn
    by_cases e : p = root i
    · exact ⟨.call, (hold p _).mpr (.inl ⟨rfl, e⟩)⟩
    · refine ⟨x, (hold p x).mpr (.inr ⟨hx, fun b => ⟨?_, ?_⟩⟩)⟩
      · rintro rfl
        exact e ((htable p).mp hx.2)
      · rintro rfl
        have := hx.2
        rw [hlists b] at this
        cases this
  · rcases (hold p x).mp hx with ⟨-, rfl⟩ | ⟨h1, -⟩
    · exact h.user i hi hk
    · exact h.ram p x h1 hne
  · refine List.nodup_append.mpr ⟨h.heldNodup, List.nodup_singleton _, fun p hp q hq e => ?_⟩
    rw [List.mem_singleton.mp hq] at e
    exact nomatch h.once p .call (.table i) hp (e ▸ hroot)
  · obtain ⟨h1, h2⟩ := (hmem j).mp hj
    show ((space j).lists c).Nodup
    rw [hspace j h1]
    exact h.nodup j h2 c
  · obtain ⟨h1, h2⟩ := (hmem j).mp hj
    change (space j).arch.kernel = false at hkj
    rw [hspace j h1] at hkj
    exact h.user j h2 hkj

end

end VmmPages
end LkHv
