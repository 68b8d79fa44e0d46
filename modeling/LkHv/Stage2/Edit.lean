import LkHv.Stage2.Forest

/-!
# Writing entries

* `memPteSet_spec`   `mem_pte_set` changes the translations of the pages of its entry and of no other page;
* `setEntry_spec`    `pte_get` followed by `mem_pte_set`.
-/

namespace LkHv
open Radix

variable {V : Type} {cfg : Config}

/-- the translation of page `k` in what an entry of level `d` maps -/
def viewLeaf (d : Nat) : View Nat Nat → Option (Nat × Nat)
  | .leaf p => some (d, p)
  | _ => none

/-- the descriptors the code writes at level `d`: nothing, or a leaf -/
def EntryVal (d val : Nat) : Prop := ∀ g, entryView d val ≠ .table g

theorem entryVal_zero (d : Nat) : EntryVal d 0 := by
  intro g
  simp

section
variable {s : Hv} {am : V → ArchVmMem} {lab : Nat → Option (Label V)}

/-- `mem_pte_set` in memory -/
theorem memPteSet_mem (cfg : Config) (s : Hv) (mem : VmMem) (dst val ipa a : Nat) :
    (memPteSet cfg s mem dst val ipa).1.mem a = if a = dst then
      (if isPteValid (s.mem dst) ∧ ¬ isPteValid val then 0 else val) else s.mem a := by
  rw [memPteSet]
  split
  · rename_i h
    simp only [h]
    rfl
  · rename_i h
    have h : isPteValid (s.mem dst) = true := by simpa using h
    simp only [h, true_and]
    split
    · rfl
    · split <;>
      · show (if a = dst then val else if a = dst then 0 else s.mem a) = _
        split <;> rfl

/-- the entry `mem_pte_set` leaves means what `val` means -/
theorem memPteSet_store (cfg : Config) (s : Hv) (mem : VmMem) (f i val ipa l : Nat) :
    store (memPteSet cfg s mem (pteAddr f i) val ipa).1.mem l f i = entryView l val := by
  rw [store, memPteSet_mem, if_pos rfl]
  split
  · rename_i h
    rw [entryView_zero, entryView_of_invalid (by simpa using h.2)]
  · rfl

theorem memPteSet_agreeOff (cfg : Config) (s : Hv) (mem : VmMem) {f i : Nat} (val ipa : Nat) (hi : i < 512) :
    AgreeOff 512 (store s.mem) (store (memPteSet cfg s mem (pteAddr f i) val ipa).1.mem) f i := by
  intro l g j hj hn
  rw [store, store, memPteSet_mem, if_neg fun e => hn (pteAddr_inj hj hi e)]

theorem memPteSet_pmm (cfg : Config) (s : Hv) (mem : VmMem) (dst val ipa : Nat) :
    (memPteSet cfg s mem dst val ipa).1.pmm = s.pmm := by
  simp only [memPteSet]
  repeat' split
  all_goals rfl

theorem memPteSet_regs (cfg : Config) (s : Hv) (mem : VmMem) (dst val ipa : Nat) :
    (memPteSet cfg s mem dst val ipa).1.vttbrEl2 = s.vttbrEl2 ∧
      (memPteSet cfg s mem dst val ipa).1.others = s.others := by
  simp only [memPteSet]
  repeat' split
  all_goals exact ⟨rfl, rfl⟩

theorem memPteSet_vm (cfg : Config) (s : Hv) (mem : VmMem) (dst val ipa : Nat) :
    (memPteSet cfg s mem dst val ipa).2 = mem ∨
      (memPteSet cfg s mem dst val ipa).2 = { mem with needFlush := true } := by
  simp only [memPteSet]
  repeat' split
  all_goals first | exact .inl rfl | exact .inr rfl

theorem memPteSet_tables (h : Tables cfg s am lab) {v : V} {d p g i val : Nat} (hi : i < 512)
    (hg : lab g = some ⟨v, d, p⟩) (hd : d ≤ 1) (hv : EntryVal d val) (mem : VmMem) (ipa : Nat) :
    Tables cfg (memPteSet cfg s mem (pteAddr g i) val ipa).1 am lab where
  pmm := by rw [memPteSet_pmm]; exact h.pmm
  kmapped := by rw [memPteSet_pmm]; exact h.kmapped
  forest := by
    intro f t l q j g' hf hj hg'
    by_cases e : f = g ∧ j = i
    · rw [e.1, hg] at hf
      cases hf
      rw [e.1, e.2, memPteSet_store] at hg'
      exact absurd hg' (hv g')
    · rw [memPteSet_agreeOff cfg s mem val ipa hi _ _ _ hj e] at hg'
      exact h.forest f t l q j g' hf hj hg'
  used := by rw [memPteSet_pmm]; exact h.used
  level0 := by
    intro f w q hf j hj
    rw [memPteSet_mem, if_neg, h.level0 f w q hf j hj]
    intro e
    rw [(pteAddr_inj hj hi e).1, hg] at hf
    cases hf
    omega
  root := h.root
  loaded := by
    rw [(memPteSet_regs _ _ _ _ _ _).1, (memPteSet_regs _ _ _ _ _ _).2]
    exact h.loaded

/-- **`mem_pte_set`** at the entry of level `d` on the path of page `k`: the pages of the entry translate as
`val` says, and every other page of every VM as before. -/
theorem memPteSet_walks [DecidableEq V] (h : Tables cfg s am lab) {v : V} {d root g val k : Nat}
    (hd : d ≤ cfg.top) (hr : Rooted cfg lab v (am v) root) (hg : lab g = some ⟨v, d, k / 512 ^ (d + 1)⟩)
    (hs : slot 512 (store s.mem) d cfg.top (root + k / 512 ^ (cfg.top + 1)) k = some g)
    (hv : EntryVal d val) (mem : VmMem) (ipa : Nat) (w : V) {x : Nat} (hx : x < cfg.span) :
    leafWalk cfg (memPteSet cfg s mem (pteAddr g (digit 512 d k)) val ipa).1.mem (am w).vttbr x
      = if w = v ∧ x / 512 ^ d = k / 512 ^ d then viewLeaf d (entryView d val)
        else leafWalk cfg s.mem (am w).vttbr x := by
  have hB : 0 < 512 := by decide
  have hi := digit_lt hB d k
  have hoff := memPteSet_agreeOff cfg s mem val ipa (f := g) hi
  split
  · rename_i e
    obtain ⟨rfl, e⟩ := e
    -- `x` goes through the same tables as `k` down to the entry
    have hpre : x / 512 ^ (d + 1) = k / 512 ^ (d + 1) := div_pow_of_le e (by lia)
    have hroot : x / 512 ^ (cfg.top + 1) = k / 512 ^ (cfg.top + 1) := div_pow_of_le e (by lia)
    have hdig : digit 512 d x = digit 512 d k := digit_congr e le_rfl
    have hlab := Tables.lab_rooted hr hx
    rw [h.leafWalk_rooted hr]
    have hs' : slot 512 (store (memPteSet cfg s mem (pteAddr g (digit 512 d k)) val ipa).1.mem) d
        cfg.top (root + x / 512 ^ (cfg.top + 1)) x = some g := by
      rw [slot_frame h.forest hB hg hoff (fun _ => le_rfl) hd hlab, slot_congr hd hpre, hroot, hs]
    rw [walk_of_slot hs']
    have hst := memPteSet_store cfg s mem g (digit 512 d k) val ipa d
    cases d with
    | zero =>
      rw [walk, hdig, hst]
      cases entryView 0 val <;> rfl
    | succ d =>
      rw [walk, hdig, hst]
      cases hvw : entryView (d + 1) val with
      | empty => rfl
      | leaf p => rfl
      | table g' => exact absurd hvw (hv g')
  · rename_i e
    rcases h.root w with hn | ⟨r, hr'⟩
    · rw [hn.vttbr, leafWalk_zero, leafWalk_zero]
    · rw [h.leafWalk_rooted hr', h.leafWalk_rooted hr']
      refine walk_frame h.forest hB hg hoff (Tables.lab_rooted hr' hx) fun ew ex => e ⟨ew, ?_⟩
      rw [ex, ← div_eq_pfx]

end

/-! ## `pte_get` and `mem_pte_set` -/

/-- what an edit may do to the pages: free ones become tables, allocated ones stay -/
structure Grow (s s' : Hv) (lab lab' : Nat → Option (Label V)) : Prop where
  keep : ∀ f x, lab f = some x → lab' f = some x
  fresh : ∀ f, lab f = none → lab' f ≠ none → s.pmm.nonfree f = false
  ram : ∀ p, s'.pmm.Ram p ↔ s.pmm.Ram p
  nonfree : ∀ p, s.pmm.nonfree p = true → s'.pmm.nonfree p = true
  refused : s.pmm.refused ≤ s'.pmm.refused
  vttbrEl2 : s'.vttbrEl2 = s.vttbrEl2
  others : s'.others = s.others

theorem Ext.grow {s s' : Hv} {lab lab' : Nat → Option (Label V)} (h : Ext cfg s s' lab lab') : Grow s s' lab lab' :=
  { h, h.quiet with }

theorem Grow.refl (s : Hv) (lab : Nat → Option (Label V)) : Grow s s lab lab :=
  ⟨fun _ _ h => h, fun _ h h' => absurd h h', fun _ => Iff.rfl, fun _ h => h, le_rfl, rfl, rfl⟩

theorem Grow.trans {s s' s'' : Hv} {lab lab' lab'' : Nat → Option (Label V)}
    (h : Grow s s' lab lab') (h' : Grow s' s'' lab' lab'') : Grow s s'' lab lab'' where
  keep f x hf := h'.keep f x (h.keep f x hf)
  fresh f hf hf'' := by
    by_cases hf' : lab' f = none
    · have := h'.fresh f hf' hf''
      by_contra hn
      rw [h.nonfree f (by simpa using hn)] at this
      cases this
    · exact h.fresh f hf hf'
  ram p := (h'.ram p).trans (h.ram p)
  nonfree p hp := h'.nonfree p (h.nonfree p hp)
  refused := h.refused.trans h'.refused
  vttbrEl2 := h'.vttbrEl2.trans h.vttbrEl2
  others := h'.others.trans h.others

theorem memPteSet_grow (cfg : Config) (s : Hv) (mem : VmMem) (dst val ipa : Nat) (lab : Nat → Option (Label V)) :
    Grow s (memPteSet cfg s mem dst val ipa).1 lab lab where
  keep _ _ h := h
  fresh _ h h' := absurd h h'
  ram p := by rw [memPteSet_pmm]
  nonfree p hp := by rw [memPteSet_pmm]; exact hp
  refused := by rw [memPteSet_pmm]
  vttbrEl2 := (memPteSet_regs _ _ _ _ _ _).1
  others := (memPteSet_regs _ _ _ _ _ _).2

/-- the parts of `vm_mem` an edit leaves alone -/
structure SameSegs (a b : VmMem) : Prop where
  segNum : b.segNum = a.segNum
  memSeg : b.memSeg = a.memSeg

variable [DecidableEq V]

/-- the VMs with the `vm_mem` of `v` replaced -/
abbrev setAm (am : V → ArchVmMem) (v : V) (vm : VmMem) : V → ArchVmMem := Function.update am v vm.archMem

theorem setAm_setAm (am : V → ArchVmMem) (v : V) (vm vm' : VmMem) : setAm (setAm am v vm) v vm' = setAm am v vm' :=
  Function.update_idem _ _ _

/-- what a round of the loops does to the translations, at level `d` with the descriptor `val` -/
def Edited (cfg : Config) (s s' : Hv) (am am' : V → ArchVmMem) (v : V) (d k val : Nat) : Prop :=
  ∀ w x, x < cfg.span → leafWalk cfg s'.mem (am' w).vttbr x
    = if w = v ∧ x / 512 ^ d = k / 512 ^ d then viewLeaf d (entryView d val)
      else leafWalk cfg s.mem (am w).vttbr x

/-- the largest leaf is a 2M block -/
def SmallLeaves (cfg : Config) (s : Hv) (am : V → ArchVmMem) : Prop :=
  ∀ w x, x < cfg.span → ∀ l p, leafWalk cfg s.mem (am w).vttbr x = some (l, p) → l ≤ 1

theorem Edited.small {s s' : Hv} {am am' : V → ArchVmMem} {v : V} {d k val : Nat}
    (h : Edited cfg s s' am am' v d k val) (hd : d ≤ 1) (hs : SmallLeaves cfg s am) : SmallLeaves cfg s' am' := by
  intro w x hx l p hl
  rw [h w x hx] at hl
  split at hl
  · cases hv : entryView d val <;> rw [hv] at hl <;> simp [viewLeaf] at hl
    omega
  · exact hs w x hx l p hl

omit [DecidableEq V] in
theorem SameWalks.small {s s' : Hv} {am am' : V → ArchVmMem} (h : SameWalks cfg s s' am am')
    (hs : SmallLeaves cfg s am) : SmallLeaves cfg s' am' := by
  intro w x hx l p hl
  rw [h w x hx] at hl
  exact hs w x hx l p hl

/-- a round of the loops that wrote its entry -/
structure RoundOk (cfg : Config) (s s' : Hv) (am am' : V → ArchVmMem) (v : V) (d k val : Nat) :
    Prop where
  refused : s'.pmm.refused = s.pmm.refused
  root : (am' v).st2Table ≠ 0
  edited : Edited cfg s s' am am' v d k val
  keep : KeepTables cfg s s' am am' v d
  here : HasTable cfg s' (am' v) d k

/-- a round that found no entry to write -/
structure RoundFail (cfg : Config) (s s' : Hv) (am am' : V → ArchVmMem) (v : V) (d k : Nat) :
    Prop where
  same : SameWalks cfg s s' am am'
  keep : KeepTables cfg s s' am am' v 0
  clean : (am' v).st2Table = 0 → RootClean cfg s'
  missing : ¬ HasTable cfg s (am v) d k
  why : s'.pmm.refused = s.pmm.refused + 1 ∨ s'.pmm.refused = s.pmm.refused ∧ Blocked cfg s (am v) d k

omit [DecidableEq V] in
/-- writing an entry of level `d` leaves the tables of that level and above, and those of other VMs -/
theorem memPteSet_keepTables {s : Hv} {am : V → ArchVmMem} {lab : Nat → Option (Label V)}
    (h : Tables cfg s am lab) {v : V} {d p g i : Nat} (hi : i < 512)
    (hg : lab g = some ⟨v, d, p⟩) (val : Nat) (mem : VmMem) (ipa : Nat) :
    KeepTables cfg s (memPteSet cfg s mem (pteAddr g i) val ipa).1 am am v d := by
  intro w d' k hk hd ht
  rcases h.root w with hn | ⟨r, hr⟩
  · exact absurd ht hn.noTable
  · rw [h.hasTable_rooted hr] at ht ⊢
    obtain ⟨x, hx⟩ := ht
    by_cases hd' : d' ≤ cfg.top
    · refine ⟨x, ?_⟩
      rw [slot_frame h.forest (by decide) hg (memPteSet_agreeOff cfg s mem val ipa hi) hd hd'
        (Tables.lab_rooted hr hk), hx]
    · rw [slot_above (by omega)] at hx
      cases hx

theorem setEntry_spec {s : Hv} {am : V → ArchVmMem} {lab : Nat → Option (Label V)} {v : V}
    (vm : VmMem) (h : Tables cfg s am lab) (ha : vm.archMem = am v)
    (hc : (am v).st2Table = 0 → RootClean cfg s) (ipa : Nat) {d val : Nat} (hd : d ≤ 1) (hv : EntryVal d val) :
    ∃ lab', Tables cfg (setEntry cfg s vm ipa (3 - d) val).1
        (setAm am v (setEntry cfg s vm ipa (3 - d) val).2.1) lab' ∧
      Grow s (setEntry cfg s vm ipa (3 - d) val).1 lab lab' ∧ SameSegs vm (setEntry cfg s vm ipa (3 - d) val).2.1 ∧
      (((setEntry cfg s vm ipa (3 - d) val).2.2 = true ∧ RoundOk cfg s (setEntry cfg s vm ipa (3 - d) val).1 am
            (setAm am v (setEntry cfg s vm ipa (3 - d) val).2.1) v d (cfg.key ipa) val) ∨
        ((setEntry cfg s vm ipa (3 - d) val).2.2 = false ∧ RoundFail cfg s (setEntry cfg s vm ipa (3 - d) val).1 am
            (setAm am v (setEntry cfg s vm ipa (3 - d) val).2.1) v d (cfg.key ipa))) := by
  obtain ⟨lab', h1, e1, hsame, hkeep, hclean, hG⟩ := pteGet_spec (v := v) h hc ipa hd
  have htop := cfg.top_eq
  rw [setEntry]
  simp only [ha]
  rcases hG with ⟨g, root, hr, hg, hroot, hslot, href⟩ | ⟨hr, hmiss, hwhy⟩
  · simp only [hr]
    have hi := digit_lt (by decide : 0 < 512) d (cfg.key ipa)
    -- `mem_pte_set` keeps the `arch_vm_mem` that `pte_get` left
    obtain ⟨vm1, hvm1⟩ : ∃ vm1 : VmMem, vm1 = { vm with archMem := (pteGet cfg s (am v) ipa (3 - d)).2.1 } := ⟨_, rfl⟩
    rw [← hvm1]
    have hvm : (memPteSet cfg (pteGet cfg s (am v) ipa (3 - d)).1 vm1
        (pteAddr g (digit 512 d (cfg.key ipa))) val ipa).2.archMem
          = (pteGet cfg s (am v) ipa (3 - d)).2.1 ∧
        SameSegs vm (memPteSet cfg (pteGet cfg s (am v) ipa (3 - d)).1 vm1
          (pteAddr g (digit 512 d (cfg.key ipa))) val ipa).2 := by
      rcases memPteSet_vm cfg (pteGet cfg s (am v) ipa (3 - d)).1 vm1
        (pteAddr g (digit 512 d (cfg.key ipa))) val ipa with e | e <;> rw [e, hvm1] <;>
          exact ⟨rfl, rfl, rfl⟩
    obtain ⟨hvm, hsegs⟩ := hvm
    have hroot' : Rooted cfg lab' v
        (Function.update am v (pteGet cfg s (am v) ipa (3 - d)).2.1 v) root := by
      rw [Function.update_self]
      exact hroot
    have h2 := memPteSet_tables h1 hi hg hd hv vm1 ipa
    have hk2 := memPteSet_keepTables h1 hi hg val vm1 ipa
    refine ⟨lab', ?_, e1.grow.trans (memPteSet_grow _ _ _ _ _ _ _), hsegs, .inl ⟨trivial, ⟨?_, ?_, ?_, ?_, ?_⟩⟩⟩
    · rw [setAm, hvm]
      exact h2
    · rw [memPteSet_pmm]
      exact href
    · rw [setAm, hvm]
      exact h1.st2Table_ne hroot'
    · intro w x hx
      rw [setAm, hvm, memPteSet_walks h1 (by lia) hroot' hg hslot hv vm1 ipa w hx]
      split
      · rfl
      · exact hsame w x hx
    · rw [setAm, hvm]
      intro w d' x hx hd' ht
      exact hk2 w d' x hx hd' (hkeep w d' x hx (fun _ => Nat.zero_le _) ht)
    · rw [setAm, hvm]
      exact hk2 v d _ (cfg.key_lt ipa) (fun _ => le_rfl) ((h1.hasTable_rooted hroot' _ _ _).mpr ⟨g, hslot⟩)
  · simp only [hr]
    exact ⟨lab', h1, e1.grow, ⟨rfl, rfl⟩, .inr ⟨trivial, hsame, hkeep,
      fun hz => hclean (by rwa [setAm, Function.update_self] at hz), hmiss, hwhy⟩⟩

/-- a round, as far as the invariant of the tables goes -/
theorem setEntry_tables {s : Hv} {am : V → ArchVmMem} {lab : Nat → Option (Label V)} {v : V}
    (vm : VmMem) (h : Tables cfg s am lab) (ha : vm.archMem = am v)
    (hc : (am v).st2Table = 0 → RootClean cfg s) (hsm : SmallLeaves cfg s am) (ipa : Nat) {d val : Nat}
    (hd : d ≤ 1) (hv : EntryVal d val) : ∃ lab', Tables cfg (setEntry cfg s vm ipa (3 - d) val).1
        (setAm am v (setEntry cfg s vm ipa (3 - d) val).2.1) lab' ∧
      Grow s (setEntry cfg s vm ipa (3 - d) val).1 lab lab' ∧ SmallLeaves cfg (setEntry cfg s vm ipa (3 - d) val).1
        (setAm am v (setEntry cfg s vm ipa (3 - d) val).2.1) ∧ ((setEntry cfg s vm ipa (3 - d) val).2.2 = true →
        (setEntry cfg s vm ipa (3 - d) val).2.1.archMem.st2Table ≠ 0) := by
  obtain ⟨lab', ht, hg, -, hout⟩ := setEntry_spec vm h ha hc ipa hd hv
  refine ⟨lab', ht, hg, ?_⟩
  rcases hout with ⟨-, ho⟩ | ⟨hno, hf⟩
  · refine ⟨ho.edited.small hd hsm, fun _ => ?_⟩
    have := ho.root
    rwa [setAm, Function.update_self] at this
  · refine ⟨hf.same.small hsm, fun hyes => ?_⟩
    rw [hno] at hyes
    cases hyes

end LkHv
