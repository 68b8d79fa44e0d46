import LkHv.Stage2.Table

/-!
# The tables of all VMs

`Tables cfg s am lab` says that the page allocator is well formed, that every table page is allocated and
carries one label (VM, level, the pages it covers), that descriptors point to tables with the right label,
and that the root of every VM is where its `arch_vm_mem` says.

* `Ext`                what table building may do: it takes free pages, makes tables of them and changes no
                       translation;
* `pteWalk_spec`       the loop of `pte_get`;
* `pteGet_spec`        `pte_get`: the entry, a refused allocation, or a block in the way.
-/

namespace LkHv
open Radix

variable {V : Type} {cfg : Config}

/-! ## primitive steps -/

/-- writing an entry changes the stores there only -/
theorem agreeOff_write {mem mem' : PhysMem} {f i val : Nat} (hi : i < 512)
    (h : ∀ a, mem' a = if a = pteAddr f i then val else mem a) : AgreeOff 512 (store mem) (store mem') f i := by
  intro l g j hj hn
  rw [store, store, h, if_neg fun e => hn (pteAddr_inj hj hi e)]

theorem store_write {mem mem' : PhysMem} {f i val : Nat}
    (h : ∀ a, mem' a = if a = pteAddr f i then val else mem a) (l : Nat) : store mem' l f i = entryView l val := by
  rw [store, h, if_pos rfl]

/-! ## the invariant -/

/-- the root of `v` is the tables in the frames `r, r + 1, ...` -/
structure Rooted (cfg : Config) (lab : Nat → Option (Label V)) (v : V) (a : ArchVmMem) (r : Nat) :
    Prop where
  table : a.st2Table = PAGE_SIZE * r
  kva : a.st2RootKva = some (PAGE_SIZE * r)
  vttbr : a.vttbr = a.vmid * 2 ^ 48 + PAGE_SIZE * r
  lab : ∀ j < 2 ^ cfg.rootOrder, lab (r + j) = some ⟨v, cfg.top, j⟩

structure Rootless (a : ArchVmMem) : Prop where
  table : a.st2Table = 0
  kva : a.st2RootKva = none
  vttbr : a.vttbr = 0

structure Tables (cfg : Config) (s : Hv) (am : V → ArchVmMem) (lab : Nat → Option (Label V)) :
    Prop where
  pmm : s.pmm.Wf
  kmapped : ∀ p, s.pmm.Ram p → cfg.kmapped (PAGE_SIZE * p) = true
  forest : Forest 512 lab (store s.mem)
  used : ∀ f, lab f ≠ none → s.pmm.Ram f ∧ s.pmm.nonfree f = true
  level0 : ∀ f v p, lab f = some ⟨v, 3, p⟩ → ∀ i < 512, isPteBlock (s.mem (pteAddr f i)) = false
  root : ∀ v, Rootless (am v) ∨ ∃ r, Rooted cfg lab v (am v) r
  loaded : ∀ w ∈ s.vttbrEl2 :: s.others, w = 0 ∨ ∃ v, (am v).st2Table ≠ 0 ∧ w = (am v).vttbr

section tables
variable {s : Hv} {am : V → ArchVmMem} {lab : Nat → Option (Label V)}

theorem Tables.frame_lt (h : Tables cfg s am lab) {f : Nat} {x : Label V} (hf : lab f = some x) :
    0 < f ∧ f < 2 ^ 36 :=
  h.pmm.ram_lt (h.used f (by simp [hf])).1

theorem Tables.root_lt (h : Tables cfg s am lab) {v : V} {r : Nat}
    (hr : Rooted cfg lab v (am v) r) : 0 < r ∧ r < 2 ^ 36 :=
  h.frame_lt (hr.lab 0 (Nat.pow_pos (by decide)))

theorem Tables.st2Table_ne (h : Tables cfg s am lab) {v : V} {r : Nat}
    (hr : Rooted cfg lab v (am v) r) : (am v).st2Table ≠ 0 := by
  have := h.root_lt hr
  rw [hr.table, PAGE_SIZE]
  omega

theorem Tables.rooted (h : Tables cfg s am lab) {v : V} (hv : (am v).st2Table ≠ 0) : ∃ r, Rooted cfg lab v (am v) r :=
  (h.root v).resolve_left fun hn => hv hn.table

theorem Tables.rootless (h : Tables cfg s am lab) {v : V} (hv : (am v).st2Table = 0) : Rootless (am v) :=
  (h.root v).resolve_right fun ⟨_, hr⟩ => h.st2Table_ne hr hv

theorem Rooted.base {v : V} {a : ArchVmMem} {r : Nat} (hr : Rooted cfg lab v a r)
    (hlt : r < 2 ^ 36) : a.vttbr % 2 ^ 48 = PAGE_SIZE * r := by
  rw [hr.vttbr, Nat.mul_comm, Nat.mul_add_mod]
  apply Nat.mod_eq_of_lt
  rw [PAGE_SIZE]
  omega

theorem div_lt_of_span {k : Nat} (hk : k < cfg.span) : k / 512 ^ (cfg.top + 1) < 2 ^ cfg.rootOrder :=
  Nat.div_lt_of_lt_mul hk

/-- the walk of a VM starts at a labelled table -/
theorem Tables.leafWalk_rooted (h : Tables cfg s am lab) {v : V} {r : Nat}
    (hr : Rooted cfg lab v (am v) r) (mem : PhysMem) (k : Nat) : leafWalk cfg mem (am v).vttbr k
      = walk 512 (store mem) cfg.top (r + k / 512 ^ (cfg.top + 1)) k := by
  obtain ⟨h0, h1⟩ := h.root_lt hr
  rw [leafWalk, rootFrame, hr.base h1, cfg.hw_top, if_neg (by rw [PAGE_SIZE]; omega),
    Nat.mul_div_cancel_left _ (by decide : 0 < PAGE_SIZE)]

theorem leafWalk_zero (cfg : Config) (mem : PhysMem) (k : Nat) : leafWalk cfg mem 0 k = none := by
  rw [leafWalk, if_pos (Nat.zero_mod _)]

theorem Tables.lab_rooted {v : V} {r k : Nat} (hr : Rooted cfg lab v (am v) r) (hk : k < cfg.span) :
    lab (r + k / 512 ^ (cfg.top + 1)) = some ⟨v, cfg.top, k / 512 ^ (cfg.top + 1)⟩ :=
  hr.lab _ (div_lt_of_span hk)

/-- memories that agree on the walks from labelled tables give every VM the same translations -/
theorem Tables.leafWalk_congr (h : Tables cfg s am lab) {mem : PhysMem}
    (hw : ∀ (t : V) l f k, lab f = some ⟨t, l, k / 512 ^ (l + 1)⟩ →
      walk 512 (store mem) l f k = walk 512 (store s.mem) l f k) (v : V) {k : Nat}
    (hk : k < cfg.span) : leafWalk cfg mem (am v).vttbr k = leafWalk cfg s.mem (am v).vttbr k := by
  rcases h.root v with hn | ⟨r, hr⟩
  · rw [hn.vttbr, leafWalk_zero, leafWalk_zero]
  · rw [h.leafWalk_rooted hr, h.leafWalk_rooted hr]
    exact hw _ _ _ _ (Tables.lab_rooted hr hk)

theorem span_of_limit {k : Nat} (h : PAGE_SIZE * k < cfg.ipaLimit) : k < cfg.span := by
  have := Nat.lt_of_lt_of_le h cfg.ipaLimit_le
  rw [PAGE_SIZE] at this
  omega

/-- what the walkers can find is what the VMs' tables say -/
theorem Tables.walkable (h : Tables cfg s am lab) {s' : Hv} (hv : s'.vttbrEl2 = s.vttbrEl2)
    (ho : s'.others = s.others) (hw : ∀ (t : V) l f k, lab f = some ⟨t, l, k / 512 ^ (l + 1)⟩ →
      walk 512 (store s'.mem) l f k = walk 512 (store s.mem) l f k) (vmid k p : Nat) :
    s'.Walkable cfg vmid k p ↔ s.Walkable cfg vmid k p := by
  rw [Hv.Walkable, Hv.Walkable, hv, ho]
  refine exists_congr fun w => and_congr_right fun hm => and_congr_right fun _ => and_congr_right fun hk => ?_
  have : leafWalk cfg s'.mem w k = leafWalk cfg s.mem w k := by
    rcases h.loaded w hm with rfl | ⟨v, -, rfl⟩
    · rw [leafWalk_zero, leafWalk_zero]
    · exact h.leafWalk_congr hw v (span_of_limit hk)
  rw [pageWalk, pageWalk, this]

end tables

/-! ## changes that no translation sees -/

/-- no labelled table moves, no translation changes, and the TLBs gain only what the walkers can find -/
structure Quiet (cfg : Config) (lab : Nat → Option (Label V)) (s s' : Hv) : Prop where
  walk : ∀ (t : V) l f k, lab f = some ⟨t, l, k / 512 ^ (l + 1)⟩ →
    walk 512 (store s'.mem) l f k = walk 512 (store s.mem) l f k
  slot : ∀ (t : V) d l f k g, lab f = some ⟨t, l, k / 512 ^ (l + 1)⟩ →
    slot 512 (store s.mem) d l f k = some g → slot 512 (store s'.mem) d l f k = some g
  walkable : ∀ vmid k p, s'.Walkable cfg vmid k p ↔ s.Walkable cfg vmid k p
  tlb : ∀ vmid k p, s'.tlb vmid k p → s.tlb vmid k p ∨ s.Walkable cfg vmid k p
  vttbrEl2 : s'.vttbrEl2 = s.vttbrEl2
  others : s'.others = s.others
  bbm : s'.bbm = s.bbm

theorem Quiet.refl (lab : Nat → Option (Label V)) (s : Hv) : Quiet cfg lab s s :=
  ⟨fun _ _ _ _ _ => rfl, fun _ _ _ _ _ _ _ h => h, fun _ _ _ => Iff.rfl, fun _ _ _ => .inl, rfl, rfl, rfl⟩

theorem Quiet.trans {lab lab' : Nat → Option (Label V)} {s s' s'' : Hv} (h : Quiet cfg lab s s')
    (h' : Quiet cfg lab' s' s'') (hl : ∀ f x, lab f = some x → lab' f = some x) : Quiet cfg lab s s'' where
  walk t l f k hf := (h'.walk t l f k (hl _ _ hf)).trans (h.walk t l f k hf)
  slot t d l f k g hf hs := h'.slot t d l f k g (hl _ _ hf) (h.slot t d l f k g hf hs)
  walkable vmid k p := (h'.walkable vmid k p).trans (h.walkable vmid k p)
  tlb vmid k p hp := by
    rcases h'.tlb vmid k p hp with hp | hp
    · exact h.tlb vmid k p hp
    · exact .inr ((h.walkable vmid k p).mp hp)
  vttbrEl2 := h'.vttbrEl2.trans h.vttbrEl2
  others := h'.others.trans h.others
  bbm := h'.bbm.trans h.bbm

/-- a change of memory followed by `fill` is quiet when the walks stay -/
theorem Tables.quiet_fill {s : Hv} {am : V → ArchVmMem} {lab : Nat → Option (Label V)}
    (h : Tables cfg s am lab) (mem : PhysMem) (pmm : Pmm)
    (hw : ∀ (t : V) l f k, lab f = some ⟨t, l, k / 512 ^ (l + 1)⟩ →
      Radix.walk 512 (store mem) l f k = Radix.walk 512 (store s.mem) l f k)
    (hs : ∀ (t : V) d l f k g, lab f = some ⟨t, l, k / 512 ^ (l + 1)⟩ →
      Radix.slot 512 (store s.mem) d l f k = some g → Radix.slot 512 (store mem) d l f k = some g) :
    Quiet cfg lab s (Hv.fill cfg { s with mem := mem, pmm := pmm }) where
  walk := hw
  slot := hs
  walkable := h.walkable rfl rfl hw
  tlb vmid k p hp := by
    rcases hp with hp | hp
    · exact .inl hp
    · refine .inr ((h.walkable ?_ ?_ hw vmid k p).mp hp) <;> rfl
  vttbrEl2 := rfl
  others := rfl
  bbm := rfl

/-- clearing a page that is no table -/
theorem agreeOn_clear {lab : Nat → Option (Label V)} {mem : PhysMem} {pg : Nat} (hp : lab pg = none) :
    AgreeOn 512 lab (store mem) (store fun a => if a / PAGE_SIZE = pg then 0 else mem a) := by
  intro l f j hj hf
  rw [store, store, pteAddr_page hj, if_neg]
  rintro rfl
  exact hf hp

theorem Tables.quiet_clear {s : Hv} {am : V → ArchVmMem} {lab : Nat → Option (Label V)}
    (h : Tables cfg s am lab) {pg : Nat} (hp : lab pg = none) (pmm : Pmm) :
    Quiet cfg lab s (Hv.clearPage cfg { s with pmm := pmm } pg) :=
  h.quiet_fill _ pmm
    (fun _ _ _ _ hf => walk_agree h.forest (by decide) (agreeOn_clear hp) hf)
    (fun _ _ _ _ _ _ hf hs => by rwa [slot_agree h.forest (by decide) (agreeOn_clear hp) hf])

theorem Tables.clear {s : Hv} {am : V → ArchVmMem} {lab : Nat → Option (Label V)}
    (h : Tables cfg s am lab) {pg : Nat} (hp : lab pg = none) : Tables cfg (s.clearPage cfg pg) am lab :=
  { h with
    forest := h.forest.agree (agreeOn_clear hp)
    level0 := by
      intro f v p hf i hi
      show isPteBlock (if pteAddr f i / PAGE_SIZE = pg then 0 else s.mem (pteAddr f i)) = false
      split
      · rfl
      · exact h.level0 f v p hf i hi }

/-- only the page allocator changed -/
theorem Tables.withPmm {s : Hv} {am : V → ArchVmMem} {lab : Nat → Option (Label V)} {pmm : Pmm}
    {pgs : List Nat} (h : Tables cfg s am lab) (ht : s.pmm.Takes pmm pgs) : Tables cfg { s with pmm := pmm } am lab :=
  { h with
    pmm := ht.wf
    kmapped := fun p hp => h.kmapped p ((ht.ram p).mp hp)
    used := fun f hf => ⟨(ht.ram f).mpr (h.used f hf).1, by
      rw [ht.nonfree, setNonfree, (h.used f hf).2, Bool.true_or]⟩ }

theorem Quiet.withPmm (lab : Nat → Option (Label V)) (s : Hv) (pmm : Pmm) : Quiet cfg lab s { s with pmm := pmm } :=
  ⟨fun _ _ _ _ _ => rfl, fun _ _ _ _ _ _ _ h => h, fun _ _ _ => Iff.rfl, fun _ _ _ => .inl, rfl, rfl, rfl⟩

/-- table building: free pages become tables, and no translation changes -/
structure Ext (cfg : Config) (s s' : Hv) (lab lab' : Nat → Option (Label V)) : Prop where
  quiet : Quiet cfg lab s s'
  keep : ∀ f x, lab f = some x → lab' f = some x
  fresh : ∀ f, lab f = none → lab' f ≠ none → s.pmm.nonfree f = false
  ram : ∀ p, s'.pmm.Ram p ↔ s.pmm.Ram p
  nonfree : ∀ p, s.pmm.nonfree p = true → s'.pmm.nonfree p = true
  refused : s.pmm.refused ≤ s'.pmm.refused

theorem Ext.refl (s : Hv) (lab : Nat → Option (Label V)) : Ext cfg s s lab lab :=
  ⟨Quiet.refl _ _, fun _ _ h => h, fun _ h h' => absurd h h', fun _ => Iff.rfl, fun _ h => h, le_rfl⟩

theorem Ext.trans {s s' s'' : Hv} {lab lab' lab'' : Nat → Option (Label V)}
    (h : Ext cfg s s' lab lab') (h' : Ext cfg s' s'' lab' lab'') : Ext cfg s s'' lab lab'' where
  quiet := h.quiet.trans h'.quiet h.keep
  keep f x hf := h'.keep f x (h.keep f x hf)
  fresh f hf hf'' := by
    by_cases hf' : lab' f = none
    · have := h'.fresh f hf' hf''
      by_contra hn
      rw [h.nonfree f (by simpa using hn)] at this
      cases this
    · exact h.fresh f hf hf'
  ram p := (h'.ram p).trans (h.ram p)
  nonfree p hp := h'.nonfree p (h.nonfree p hp)
  refused := h.refused.trans h'.refused

theorem Ext.withPmm {s : Hv} {pmm : Pmm} {pgs : List Nat} (lab : Nat → Option (Label V))
    (ht : s.pmm.Takes pmm pgs) (hr : s.pmm.refused ≤ pmm.refused) : Ext cfg s { s with pmm := pmm } lab lab where
  quiet := Quiet.withPmm _ _ _
  keep _ _ h := h
  fresh _ h h' := absurd h h'
  ram := ht.ram
  nonfree p hp := by
    show pmm.nonfree p = true
    rw [ht.nonfree, setNonfree, hp, Bool.true_or]
  refused := hr

/-! ## linking a fresh table -/

theorem entryView_of_invalid {l pte : Nat} (h : isPteValid pte = false) : entryView l pte = .empty := by
  rw [isPteValid_eq] at h
  rw [entryView, h]
  rfl

/-- a page fresh from the allocator is no table -/
theorem Tables.lab_fresh {s : Hv} {am : V → ArchVmMem} {lab : Nat → Option (Label V)}
    (h : Tables cfg s am lab) {p : Nat} (hp : s.pmm.nonfree p = false) : lab p = none := by
  by_contra hn
  rw [(h.used p hn).2] at hp
  cases hp

/-- a table page allocated, cleared and linked into an empty entry of the level above -/
theorem Tables.link {s : Hv} {am : V → ArchVmMem} {lab : Nat → Option (Label V)}
    (h : Tables cfg s am lab) {v : V} {l p f i pg : Nat} (hf : lab f = some ⟨v, l + 1, p⟩)
    (hi : i < 512) (hinv : isPteValid (s.mem (pteAddr f i)) = false) {pmm : Pmm}
    (ht : s.pmm.Takes pmm [pg]) (hr : pmm.refused = s.pmm.refused) {s' : Hv}
    (hs' : s' = Hv.write cfg (Hv.clearPage cfg { s with pmm := pmm } pg) (pteAddr f i)
      (MMU_PTE_TABLE ||| PAGE_SIZE * pg)) :
    Tables cfg s' am (Function.update lab pg (some ⟨v, l, p * 512 + i⟩)) ∧
      Ext cfg s s' lab (Function.update lab pg (some ⟨v, l, p * 512 + i⟩)) ∧
      store s'.mem (l + 1) f i = .table pg := by
  obtain ⟨hram, hfree⟩ := ht.free pg (by simp)
  have hpg : lab pg = none := h.lab_fresh hfree
  have hne : f ≠ pg := by rintro rfl; rw [hf] at hpg; cases hpg
  have h1 : Tables cfg (Hv.clearPage cfg { s with pmm := pmm } pg) am lab := (h.withPmm ht).clear hpg
  have q1 := h.quiet_clear hpg pmm
  have hmem : ∀ a, s'.mem a = if a = pteAddr f i then MMU_PTE_TABLE ||| PAGE_SIZE * pg
      else (Hv.clearPage cfg { s with pmm := pmm } pg).mem a := by
    rw [hs']
    exact fun a => rfl
  have hclear : ∀ j < 512, (Hv.clearPage cfg { s with pmm := pmm } pg).mem (pteAddr pg j) = 0 := by
    intro j hj
    show (if pteAddr pg j / PAGE_SIZE = pg then 0 else s.mem (pteAddr pg j)) = 0
    rw [if_pos (pteAddr_page hj)]
  have hkeep : (Hv.clearPage cfg { s with pmm := pmm } pg).mem (pteAddr f i) = s.mem (pteAddr f i) := by
    show (if pteAddr f i / PAGE_SIZE = pg then 0 else s.mem (pteAddr f i)) = _
    rw [if_neg (by rw [pteAddr_page hi]; exact hne)]
  have hnow : store s'.mem (l + 1) f i = .table pg := by
    rw [store_write hmem, entryView_table, Nat.mul_div_cancel_left _ (by decide : 0 < PAGE_SIZE),
      Nat.mod_eq_of_lt (h.pmm.ram_lt hram).2]
  have hV : Installs 512 (store (Hv.clearPage cfg { s with pmm := pmm } pg).mem) (store s'.mem) l f i
      pg := by
    refine ⟨?_, hnow, ?_, ?_⟩
    · rw [store, hkeep]
      exact entryView_of_invalid hinv
    · intro m j hj
      rw [agreeOff_write hi hmem _ _ _ hj fun e => hne e.1.symm, store, hclear j hj, entryView_zero]
    · exact fun m g j hj _ hn => agreeOff_write hi hmem m g j hj hn
  have q2 : Quiet cfg lab (Hv.clearPage cfg { s with pmm := pmm } pg) s' := by
    rw [hs'] at hV ⊢
    exact h1.quiet_fill _ pmm (fun _ _ _ _ hx => walk_install h1.forest (by decide) hf hpg hV hx)
      (fun _ _ _ _ _ _ hx hs => slot_install h1.forest (by decide) hf hpg hV hx hs)
  have hpmm : s'.pmm = pmm := by rw [hs']; rfl
  have hupd : ∀ f' x, lab f' = some x → Function.update lab pg (some ⟨v, l, p * 512 + i⟩) f' = some x := by
    intro f' x hf'
    rw [Function.update_of_ne (by rintro rfl; rw [hpg] at hf'; cases hf'), hf']
  refine ⟨⟨?_, ?_, h1.forest.install hf hpg hV, ?_, ?_, ?_, ?_⟩, ⟨q1.trans q2 fun _ _ hx => hx, hupd,
    ?_, ?_, ?_, ?_⟩, hnow⟩
  · rw [hpmm]
    exact ht.wf
  · rw [hpmm]
    exact fun q hq => h.kmapped q ((ht.ram q).mp hq)
  · intro f' hf'
    rw [hpmm, ht.ram, ht.nonfree, setNonfree]
    by_cases e : f' = pg
    · rw [e]
      exact ⟨hram, by simp⟩
    · rw [Function.update_of_ne e] at hf'
      obtain ⟨h3, h4⟩ := h.used f' hf'
      exact ⟨h3, by rw [h4, Bool.true_or]⟩
  · intro f' w q hf' j hj
    rw [hmem]
    split
    · rw [isPteBlock_eq, (testBit_table _).1, (testBit_table _).2]
      rfl
    · by_cases e : f' = pg
      · rw [e, hclear j hj]
        rfl
      · rw [Function.update_of_ne e] at hf'
        exact h1.level0 f' w q hf' j hj
  · intro w
    refine (h.root w).imp id ?_
    rintro ⟨r, hr⟩
    exact ⟨r, { hr with lab := fun j hj => hupd _ _ (hr.lab j hj) }⟩
  · rw [hs']
    exact h.loaded
  · intro f' hn hx
    by_cases e : f' = pg
    · rw [e, hfree]
    · rw [Function.update_of_ne e] at hx
      exact absurd hn hx
  · rw [hpmm]
    exact ht.ram
  · intro q hq
    rw [hpmm, ht.nonfree, setNonfree, hq, Bool.true_or]
  · rw [hpmm, hr]

/-! ## `pte_get` -/

/-- how a lookup of level `d` for page `k` from the table `g` of level `l` ends: at the entry, with a refused
allocation, or at a block -/
def Lookup (v : V) (lab' : Nat → Option (Label V)) (s s' : Hv) (d l g k : Nat) (r : Option Nat) : Prop :=
  (∃ g', r = some (pteAddr g' (digit 512 d k)) ∧ lab' g' = some ⟨v, d, k / 512 ^ (d + 1)⟩ ∧
      slot 512 (store s'.mem) d l g k = some g' ∧ s'.pmm.refused = s.pmm.refused) ∨
    (r = none ∧ slot 512 (store s.mem) d l g k = none ∧ (s'.pmm.refused = s.pmm.refused + 1 ∨
        s'.pmm.refused = s.pmm.refused ∧ ∃ m p, walk 512 (store s.mem) l g k = some (m, p) ∧ d < m))

/-- a lookup that goes through the entry for table `g'` -/
theorem Lookup.step {v : V} {lab' : Nat → Option (Label V)} {s s1 s' : Hv} {d l g g' k : Nat}
    {r : Option Nat} (h : Lookup v lab' s1 s' d l g' k r) (hd : d ≤ l)
    (hw : walk 512 (store s.mem) (l + 1) g k = walk 512 (store s1.mem) l g' k)
    (hs : slot 512 (store s'.mem) l (l + 1) g k = some g')
    (hn : slot 512 (store s1.mem) d l g' k = none → slot 512 (store s.mem) d (l + 1) g k = none)
    (hr : s1.pmm.refused = s.pmm.refused) : Lookup v lab' s s' d (l + 1) g k r := by
  rcases h with ⟨x, h1, h2, h3, h4⟩ | ⟨h1, h2, h3 | ⟨h3, m, p, h4, h5⟩⟩
  · refine .inl ⟨x, h1, h2, ?_, h4.trans hr⟩
    rw [slot_of_slot hd (by omega) hs, h3]
  · exact .inr ⟨h1, hn h2, .inl (by rw [h3, hr])⟩
  · exact .inr ⟨h1, hn h2, .inr ⟨h3.trans hr, m, p, hw.trans h4, h5⟩⟩

theorem slot_none {W : Store Nat Nat} {d l f k : Nat} (hd : d ≤ l)
    (h : ∀ g, W (l + 1) f (digit 512 (l + 1) k) ≠ .table g) : slot 512 W d (l + 1) f k = none := by
  rw [slot_step (by omega)]
  split
  · rename_i g hg
    exact absurd hg (h g)
  · rfl

theorem slot_one {W : Store Nat Nat} {l f g k : Nat} (h : W (l + 1) f (digit 512 (l + 1) k) = .table g) :
    slot 512 W l (l + 1) f k = some g := by
  rw [slot_step (by omega), h]
  exact slot_self _ _ _

theorem entryView_valid_table {l pte : Nat} (hv : isPteValid pte = true) (hb : isPteBlock pte = false) :
    entryView (l + 1) pte = .table (outPage pte) := by
  rw [isPteValid_eq] at hv
  rw [isPteBlock_eq, hv] at hb
  rw [entryView, if_pos hv, if_pos (by simpa using hb), if_neg (by omega)]

theorem entryView_valid_block {l pte : Nat} (hl : l = 1 ∨ l = 2) (hb : isPteBlock pte = true) :
    entryView l pte = .leaf (outPage pte / 512 ^ l * 512 ^ l) := by
  rw [isPteBlock_eq] at hb
  rw [entryView, if_pos (by simp_all), if_neg (by simp_all), if_pos hl]

theorem pteWalk_spec {am : V → ArchVmMem} (v : V) (ipa d : Nat) : ∀ (n i kva g : Nat) {s : Hv}
    {lab : Nat → Option (Label V)}, Tables cfg s am lab → d + n ≤ cfg.top → i + (d + n) = 3 →
    lab g = some ⟨v, d + n, cfg.key ipa / 512 ^ (d + n + 1)⟩ →
    kva + 8 * pteIndex cfg ipa i = pteAddr g (digit 512 (d + n) (cfg.key ipa)) →
    ∃ lab', Tables cfg (pteWalk cfg ipa n i kva s).1 am lab' ∧ Ext cfg s (pteWalk cfg ipa n i kva s).1 lab lab' ∧
      Lookup v lab' s (pteWalk cfg ipa n i kva s).1 d (d + n) g (cfg.key ipa) (pteWalk cfg ipa n i kva s).2 := by
  intro n
  induction n with
  | zero =>
    intro i kva g s lab h _ _ hg hk
    refine ⟨lab, h, Ext.refl _ _, .inl ⟨g, ?_, hg, slot_self _ _ _, rfl⟩⟩
    show some (kva + 8 * pteIndex cfg ipa i) = _
    rw [hk]
    rfl
  | succ n ih =>
    intro i kva g s lab h hl hi hg hk
    rw [show d + (n + 1) = d + n + 1 from rfl] at hl hi hg hk ⊢
    -- the index in a table below the root
    have hnext : ∀ g', PAGE_SIZE * g' + 8 * pteIndex cfg ipa (i + 1)
        = pteAddr g' (digit 512 (d + n) (cfg.key ipa)) := by
      intro g'
      rw [pteIndex_below cfg (by rw [cfg.rootLevel_eq]; lia), cfg.digit_key (by lia),
        show 3 - (i + 1) = d + n by lia, pteAddr]
    rw [pteWalk]
    simp only [hk]
    split
    · rename_i hinv
      have hinv : isPteValid (s.mem (pteAddr g (digit 512 (d + n + 1) (cfg.key ipa)))) = false := by
        rcases hinv with e | e
        · rw [e]
          rfl
        · simpa using e
      have hempty : slot 512 (store s.mem) d (d + n + 1) g (cfg.key ipa) = none :=
        slot_none (by lia) fun g' => by rw [store, entryView_of_invalid hinv]; simp
      rcases h.pmm.allocPage with ⟨pg, e, ht, hr⟩ | ⟨e, ht, hr⟩
      · rw [e]
        obtain ⟨h1, e1, hv1⟩ := h.link hg (digit_lt (by decide) _ _) hinv ht hr rfl
        rw [← div_eq_pfx (d + n + 1)] at h1 e1
        obtain ⟨lab', h2, e2, hL⟩ := ih (i + 1) _ _ h1 (by lia) (by lia)
          (Function.update_self _ _ _) (hnext pg)
        refine ⟨lab', h2, e1.trans e2, hL.step (by lia) ?_ ?_ (fun _ => hempty) hr⟩
        · rw [← e1.quiet.walk v _ _ _ hg, walk, hv1]
        · exact e2.quiet.slot v _ _ _ _ _ (e1.keep _ _ hg) (slot_one hv1)
      · rw [e]
        exact ⟨lab, h.withPmm ht, Ext.withPmm lab ht (by lia), .inr ⟨rfl, hempty, .inl hr⟩⟩
    · rename_i hval
      have hval : isPteValid (s.mem (pteAddr g (digit 512 (d + n + 1) (cfg.key ipa)))) = true := by
        simp_all
      split
      · rename_i hb
        have hb : isPteBlock (s.mem (pteAddr g (digit 512 (d + n + 1) (cfg.key ipa)))) = true :=
          hb.resolve_left (by lia)
        have hlev : d + n + 1 = 1 ∨ d + n + 1 = 2 := by
          have : d + n + 1 ≠ 3 := by
            intro e
            rw [e] at hg hb
            rw [h.level0 g v _ hg _ (digit_lt (by decide) _ _)] at hb
            cases hb
          lia
        have hw : ∃ p, walk 512 (store s.mem) (d + n + 1) g (cfg.key ipa) = some (d + n + 1, p) := by
          rw [walk, store, entryView_valid_block hlev hb]
          exact ⟨_, rfl⟩
        obtain ⟨p, hw⟩ := hw
        refine ⟨lab, h, Ext.refl _ _, .inr ⟨rfl, slot_none (by lia) fun g' => ?_, .inr ⟨rfl,
          d + n + 1, p, hw, by lia⟩⟩⟩
        rw [store, entryView_valid_block hlev hb]
        simp
      · rename_i hb
        have hv1 : store s.mem (d + n + 1) g (digit 512 (d + n + 1) (cfg.key ipa))
            = .table (outPage (s.mem (pteAddr g (digit 512 (d + n + 1) (cfg.key ipa))))) :=
          entryView_valid_table hval (by simp_all)
        rw [pteTableAddress_eq]
        obtain ⟨lab', h2, e2, hL⟩ := ih (i + 1) _ _ h (by lia) (by lia)
          (h.forest.child (by decide) hg hv1) (hnext _)
        refine ⟨lab', h2, e2, hL.step (by lia) ?_ ?_ (fun hn => ?_) rfl⟩
        rotate_left 2
        · rw [slot_step (by lia), hv1]
          exact hn
        · rw [walk, hv1]
        · exact e2.quiet.slot v _ _ _ _ _ hg (slot_one hv1)

/-- the root pages beyond the first, which `init_st2_root` does not clear, hold no valid descriptor -/
def RootClean (cfg : Config) (s : Hv) : Prop :=
  ∀ pg, (pmmAllocContiguous s.pmm (1 <<< cfg.rootOrder) (PAGE_SIZE_SHIFT + cfg.rootOrder)).2 = some pg →
    ∀ j, 0 < j → j < 2 ^ cfg.rootOrder → ∀ i < 512, isPteValid (s.mem (pteAddr (pg + j) i)) = false

/-- the labels with a new root at `pg` -/
def rootLab (cfg : Config) (lab : Nat → Option (Label V)) (v : V) (pg : Nat) : Nat → Option (Label V) :=
  fun f => if pg ≤ f ∧ f < pg + 2 ^ cfg.rootOrder then some ⟨v, cfg.top, f - pg⟩ else lab f

variable [DecidableEq V]

theorem initSt2Root_spec {s : Hv} {am : V → ArchVmMem} {lab : Nat → Option (Label V)} {v : V}
    (h : Tables cfg s am lab) (hv : (am v).st2Table = 0) (hc : RootClean cfg s) :
    ∃ lab', Tables cfg (initSt2Root cfg s (am v)).1 (Function.update am v (initSt2Root cfg s (am v)).2.1) lab' ∧
      Ext cfg s (initSt2Root cfg s (am v)).1 lab lab' ∧ (((initSt2Root cfg s (am v)).2.2 = 0 ∧
          (initSt2Root cfg s (am v)).1.pmm.refused = s.pmm.refused ∧ (initSt2Root cfg s (am v)).2.1.st2Table ≠ 0 ∧
          (initSt2Root cfg s (am v)).2.1.vmid = s.baseVmid % 2 ^ 16 ∧
          ∀ k < cfg.span, leafWalk cfg (initSt2Root cfg s (am v)).1.mem
            (initSt2Root cfg s (am v)).2.1.vttbr k = none) ∨
        ((initSt2Root cfg s (am v)).2.2 ≠ 0 ∧ Rootless (initSt2Root cfg s (am v)).2.1 ∧
          (initSt2Root cfg s (am v)).1.pmm.refused = s.pmm.refused + 1 ∧
          RootClean cfg (initSt2Root cfg s (am v)).1)) := by
  have hl := h.rootless hv
  have hpow : 1 <<< cfg.rootOrder = 2 ^ cfg.rootOrder := Nat.one_shiftLeft _
  have hpos : 0 < 2 ^ cfg.rootOrder := Nat.pow_pos (by decide)
  rcases h.pmm.allocContiguous (1 <<< cfg.rootOrder) (PAGE_SIZE_SHIFT + cfg.rootOrder) (by lia) with
    ⟨pg, e, ht, hr, -⟩ | ⟨e, ht, hr⟩
  · have hmem : ∀ f, f ∈ List.range' pg (1 <<< cfg.rootOrder) ↔ pg ≤ f ∧ f < pg + 2 ^ cfg.rootOrder := by
      intro f
      rw [List.mem_range'_1, hpow]
    have hnone : ∀ f, pg ≤ f ∧ f < pg + 2 ^ cfg.rootOrder → lab f = none :=
      fun f hf => h.lab_fresh (ht.free f ((hmem f).mpr hf)).2
    have hpg : lab pg = none := hnone pg ⟨le_rfl, by lia⟩
    obtain ⟨hram, -⟩ := ht.free pg ((hmem pg).mpr ⟨le_rfl, by lia⟩)
    obtain ⟨hpg0, hpg36⟩ := h.pmm.ram_lt hram
    rw [initSt2Root]
    simp only [e, if_pos (h.kmapped pg hram)]
    -- the state and the `arch_vm_mem` the function leaves
    obtain ⟨s', hs'⟩ : ∃ s', s' = Hv.clearPage cfg
      { s with pmm := (pmmAllocContiguous s.pmm (1 <<< cfg.rootOrder)
                (PAGE_SIZE_SHIFT + cfg.rootOrder)).1
               baseVmid := (s.baseVmid + 1) % 2 ^ 32 } pg := ⟨_, rfl⟩
    obtain ⟨a, ha⟩ : ∃ a : ArchVmMem, a =
      { vttbr := ((s.baseVmid % 2 ^ 16) <<< (64 - VTCR_EL2_VMID_BITS)) ||| PAGE_SIZE * pg
        st2Table := PAGE_SIZE * pg, ln := List.range' pg (1 <<< cfg.rootOrder)
        st2RootKva := some (PAGE_SIZE * pg), vmid := s.baseVmid % 2 ^ 16 } := ⟨_, rfl⟩
    rw [← hs', ← ha]
    have hpmm : s'.pmm = (pmmAllocContiguous s.pmm (1 <<< cfg.rootOrder)
        (PAGE_SIZE_SHIFT + cfg.rootOrder)).1 := by rw [hs']; rfl
    have hm : s'.mem = fun x => if x / PAGE_SIZE = pg then 0 else s.mem x := by rw [hs']; rfl
    have hq : Quiet cfg lab s s' := by
      rw [hs']
      exact { h.quiet_clear hpg s'.pmm with }
    have hnew : ∀ j < 2 ^ cfg.rootOrder, ∀ i < 512, isPteValid (s'.mem (pteAddr (pg + j) i)) = false := by
      intro j hj i hi
      rw [hm]
      simp only [pteAddr_page hi]
      split
      · rfl
      · exact hc pg e j (by lia) hj i hi
    have hempty : ∀ f, pg ≤ f ∧ f < pg + 2 ^ cfg.rootOrder → ∀ l i, i < 512 → store s'.mem l f i = .empty := by
      intro f hf l i hi
      have := hnew (f - pg) (by lia) i hi
      rw [Nat.add_sub_cancel' hf.1] at this
      exact entryView_of_invalid this
    have hforest : Forest 512 lab (store s'.mem) := by
      rw [hm]
      exact h.forest.agree (agreeOn_clear hpg)
    have hkeep : ∀ f x, lab f = some x → rootLab cfg lab v pg f = some x := by
      intro f x hf
      rw [rootLab, if_neg (fun hn => by rw [hnone f hn] at hf; cases hf), hf]
    have hrooted : Rooted cfg (rootLab cfg lab v pg) v a pg := by
      rw [ha]
      refine ⟨rfl, rfl, ?_, fun j hj => ?_⟩
      · show ((s.baseVmid % 2 ^ 16) <<< (64 - VTCR_EL2_VMID_BITS)) ||| PAGE_SIZE * pg = _
        rw [← Nat.shiftLeft_add_eq_or_of_lt (by rw [VTCR_EL2_VMID_BITS, PAGE_SIZE]; lia), Nat.shiftLeft_eq]
        rfl
      · rw [rootLab, if_pos ⟨by lia, by lia⟩, Nat.add_sub_cancel_left]
    have ht' : Tables cfg s' (Function.update am v a) (rootLab cfg lab v pg) := by
      refine ⟨by rw [hpmm]; exact ht.wf, ?_, ?_, ?_, ?_, ?_, ?_⟩
      · rw [hpmm]
        exact fun p hp => h.kmapped p ((ht.ram p).mp hp)
      · intro f t l p i g hf hi hg
        by_cases hn : pg ≤ f ∧ f < pg + 2 ^ cfg.rootOrder
        · rw [hempty f hn _ _ hi] at hg
          cases hg
        · rw [rootLab, if_neg hn] at hf
          exact hkeep _ _ (hforest f t l p i g hf hi hg)
      · intro f hf
        rw [hpmm, ht.ram, ht.nonfree, setNonfree]
        by_cases hn : pg ≤ f ∧ f < pg + 2 ^ cfg.rootOrder
        · exact ⟨(ht.free f ((hmem f).mpr hn)).1, by simp [List.mem_range'_1, hpow, hn]⟩
        · rw [rootLab, if_neg hn] at hf
          obtain ⟨h3, h4⟩ := h.used f hf
          exact ⟨h3, by rw [h4, Bool.true_or]⟩
      · intro f w p hf i hi
        by_cases hn : pg ≤ f ∧ f < pg + 2 ^ cfg.rootOrder
        · have := hnew (f - pg) (by lia) i hi
          rw [Nat.add_sub_cancel' hn.1] at this
          rw [isPteBlock_eq, ← isPteValid_eq, this, Bool.false_and]
        · rw [rootLab, if_neg hn] at hf
          rw [hm]
          simp only [pteAddr_page hi]
          split
          · rfl
          · exact h.level0 f w p hf i hi
      · intro w
        by_cases ew : w = v
        · rw [ew, Function.update_self]
          exact .inr ⟨pg, hrooted⟩
        · rw [Function.update_of_ne ew]
          refine (h.root w).imp id ?_
          rintro ⟨r, hr⟩
          exact ⟨r, { hr with lab := fun j hj => hkeep _ _ (hr.lab j hj) }⟩
      · rw [hq.vttbrEl2, hq.others]
        intro w hw
        refine (h.loaded w hw).imp id ?_
        rintro ⟨u, hu, e'⟩
        refine ⟨u, ?_⟩
        rw [Function.update_of_ne (by rintro rfl; exact hu hv)]
        exact ⟨hu, e'⟩
    refine ⟨rootLab cfg lab v pg, ht', ⟨hq, hkeep, ?_, ?_, ?_, ?_⟩, .inl ⟨trivial, ?_, ?_, trivial, ?_⟩⟩
    · intro f hn hf
      by_cases hx : pg ≤ f ∧ f < pg + 2 ^ cfg.rootOrder
      · exact (ht.free f ((hmem f).mpr hx)).2
      · rw [rootLab, if_neg hx] at hf
        exact absurd hn hf
    · rw [hpmm]
      exact ht.ram
    · intro p hp
      rw [hpmm, ht.nonfree, setNonfree, hp, Bool.true_or]
    · rw [hpmm, hr]
    · rw [hpmm, hr]
    · rw [PAGE_SIZE]
      lia
    · intro k hk
      rw [show (s.baseVmid % 2 ^ 16) <<< (64 - VTCR_EL2_VMID_BITS) ||| PAGE_SIZE * pg = a.vttbr by
        rw [ha]]
      have hv' : Function.update am v a v = a := Function.update_self _ _ _
      have := ht'.leafWalk_rooted (v := v) (r := pg) (by rw [hv']; exact hrooted) s'.mem k
      rw [hv'] at this
      have hj := div_lt_of_span hk
      have he := hempty (pg + k / 512 ^ (cfg.top + 1)) ⟨Nat.le_add_right _ _, by lia⟩ cfg.top _
        (digit_lt (by decide : 0 < 512) cfg.top k)
      rw [this]
      rcases cfg.top_eq with et | et <;> rw [et] at he ⊢ <;> rw [walk, he]
  · rw [initSt2Root]
    simp only [e]
    have hl' : Rootless { am v with ln := [] } := ⟨hl.table, hl.kva, hl.vttbr⟩
    refine ⟨lab, ?_, Ext.withPmm lab ht (by lia), .inr ⟨by decide, hl', hr, fun pg hpg => ?_⟩⟩
    rotate_left
    · rw [pmmAllocContiguous_again e] at hpg
      cases hpg
    have h1 := h.withPmm ht
    refine { h1 with root := fun w => ?_, loaded := fun w hw => ?_ }
    · by_cases ew : w = v
      · rw [ew, Function.update_self]
        exact .inl hl'
      · rw [Function.update_of_ne ew]
        exact h1.root w
    · refine (h1.loaded w hw).imp id ?_
      rintro ⟨u, hu, e'⟩
      refine ⟨u, ?_⟩
      rw [Function.update_of_ne (by rintro rfl; exact hu hv)]
      exact ⟨hu, e'⟩

/-- the table of level `d` for page `k` is there -/
def HasTable (cfg : Config) (s : Hv) (a : ArchVmMem) (d k : Nat) : Prop :=
  a.vttbr % 2 ^ 48 ≠ 0 ∧ ∃ g, slot 512 (store s.mem) d cfg.top (rootFrame cfg a.vttbr k) k = some g

omit [DecidableEq V] in
theorem HasTable.congr {s : Hv} {a : ArchVmMem} {d k x : Nat} (h : HasTable cfg s a d k)
    (hd : d ≤ cfg.top) (e : x / 512 ^ (d + 1) = k / 512 ^ (d + 1)) : HasTable cfg s a d x := by
  obtain ⟨h0, g, hg⟩ := h
  refine ⟨h0, g, ?_⟩
  rw [rootFrame, cfg.hw_top, slot_congr hd e, div_pow_of_le e (by omega : d + 1 ≤ cfg.top + 1)]
  rwa [rootFrame, cfg.hw_top] at hg

omit [DecidableEq V] in
theorem Rootless.noTable {s : Hv} {a : ArchVmMem} (h : Rootless a) {d k : Nat} : ¬ HasTable cfg s a d k := by
  intro ht
  apply ht.1
  rw [h.vttbr, Nat.zero_mod]

/-- a lookup of level `d` for page `k` meets a block on its way -/
def Blocked (cfg : Config) (s : Hv) (a : ArchVmMem) (d k : Nat) : Prop :=
  ∃ m p, leafWalk cfg s.mem a.vttbr k = some (m, p) ∧ d < m

omit [DecidableEq V] in
theorem Tables.rootFrame_rooted {s : Hv} {am : V → ArchVmMem} {lab : Nat → Option (Label V)}
    (h : Tables cfg s am lab) {v : V} {r : Nat} (hr : Rooted cfg lab v (am v) r) (k : Nat) :
    (am v).vttbr % 2 ^ 48 ≠ 0 ∧ rootFrame cfg (am v).vttbr k = r + k / 512 ^ (cfg.top + 1) := by
  obtain ⟨h0, h1⟩ := h.root_lt hr
  rw [rootFrame, hr.base h1, cfg.hw_top, Nat.mul_div_cancel_left _ (by decide : 0 < PAGE_SIZE)]
  refine ⟨?_, rfl⟩
  rw [PAGE_SIZE]
  omega

omit [DecidableEq V] in
theorem Tables.hasTable_rooted {s : Hv} {am : V → ArchVmMem} {lab : Nat → Option (Label V)}
    (h : Tables cfg s am lab) {v : V} {r : Nat} (hr : Rooted cfg lab v (am v) r) (s' : Hv) (d k : Nat) :
    HasTable cfg s' (am v) d k ↔ ∃ g, slot 512 (store s'.mem) d cfg.top (r + k / 512 ^ (cfg.top + 1)) k = some g := by
  obtain ⟨h0, h1⟩ := h.rootFrame_rooted hr k
  rw [HasTable, h1]
  exact and_iff_right h0

omit [DecidableEq V] in
theorem Tables.hasTable_mono {s s' : Hv} {am : V → ArchVmMem} {lab : Nat → Option (Label V)}
    (h : Tables cfg s am lab) (hq : Quiet cfg lab s s') {v : V} {d k : Nat} (hk : k < cfg.span)
    (ht : HasTable cfg s (am v) d k) : HasTable cfg s' (am v) d k := by
  rcases h.root v with hn | ⟨r, hr⟩
  · exact absurd ht hn.noTable
  · rw [h.hasTable_rooted hr] at ht ⊢
    obtain ⟨g, hg⟩ := ht
    exact ⟨g, hq.slot v _ _ _ _ _ (Tables.lab_rooted hr hk) hg⟩

/-- how `pte_get` for level `d` and page `k` of the VM `v` ends -/
def Got (cfg : Config) (v : V) (lab' : Nat → Option (Label V)) (s s' : Hv) (a a' : ArchVmMem)
    (d k : Nat) (r : Option Nat) : Prop :=
  (∃ g root, r = some (pteAddr g (digit 512 d k)) ∧ lab' g = some ⟨v, d, k / 512 ^ (d + 1)⟩ ∧
      Rooted cfg lab' v a' root ∧
      slot 512 (store s'.mem) d cfg.top (root + k / 512 ^ (cfg.top + 1)) k = some g ∧
      s'.pmm.refused = s.pmm.refused) ∨
    (r = none ∧ ¬ HasTable cfg s a d k ∧ (s'.pmm.refused = s.pmm.refused + 1 ∨
      s'.pmm.refused = s.pmm.refused ∧ Blocked cfg s a d k))

omit [DecidableEq V] in
theorem pteGetRoot_spec {s : Hv} {am : V → ArchVmMem} {lab : Nat → Option (Label V)} {v : V}
    (h : Tables cfg s am lab) (hv : (am v).st2Table ≠ 0) (ipa : Nat) {d : Nat} (hd : d ≤ 1) :
    ∃ lab', Tables cfg (pteGetRoot cfg s (am v) ipa (3 - d)).1 am lab' ∧
      (pteGetRoot cfg s (am v) ipa (3 - d)).2.1 = am v ∧ Ext cfg s (pteGetRoot cfg s (am v) ipa (3 - d)).1 lab lab' ∧
      Got cfg v lab' s (pteGetRoot cfg s (am v) ipa (3 - d)).1 (am v) (am v) d (cfg.key ipa)
        (pteGetRoot cfg s (am v) ipa (3 - d)).2.2 := by
  obtain ⟨r, hr⟩ := h.rooted hv
  have ht := cfg.top_eq
  have hl := cfg.rootLevel_eq
  have hg := Tables.lab_rooted hr (cfg.key_lt ipa)
  have e : d + (cfg.top - d) = cfg.top := by lia
  have hk : PAGE_SIZE * r + 8 * pteIndex cfg ipa cfg.rootLevel
      = pteAddr (r + cfg.key ipa / 512 ^ (cfg.top + 1)) (digit 512 cfg.top (cfg.key ipa)) := by
    rw [pteIndex_root, pteAddr, PAGE_SIZE]
    lia
  rw [pteGetRoot]
  simp only [hr.kva]
  rw [show 3 - d - cfg.rootLevel = cfg.top - d by lia]
  obtain ⟨lab', h1, e1, hL⟩ := pteWalk_spec v ipa d (cfg.top - d) cfg.rootLevel (PAGE_SIZE * r)
    (r + cfg.key ipa / 512 ^ (cfg.top + 1)) h
    (by lia) (by lia) (by rw [e]; exact hg) (by rw [e]; exact hk)
  rw [e] at hL
  refine ⟨lab', h1, trivial, e1, hL.imp ?_ ?_⟩
  · rintro ⟨g, h2, h3, h4, h5⟩
    exact ⟨g, r, h2, h3, { hr with lab := fun j hj => e1.keep _ _ (hr.lab j hj) }, h4, h5⟩
  · rintro ⟨h2, h3, h4⟩
    refine ⟨h2, ?_, h4.imp id ?_⟩
    · rw [h.hasTable_rooted hr, h3]
      simp
    · rintro ⟨h5, m, p, h6, h7⟩
      exact ⟨h5, m, p, by rw [h.leafWalk_rooted hr, h6], h7⟩

/-- the translations of every VM are the same -/
def SameWalks (cfg : Config) (s s' : Hv) (am am' : V → ArchVmMem) : Prop :=
  ∀ w k, k < cfg.span → leafWalk cfg s'.mem (am' w).vttbr k = leafWalk cfg s.mem (am w).vttbr k

/-- the tables stay, of `v` those of level `d` and above -/
def KeepTables (cfg : Config) (s s' : Hv) (am am' : V → ArchVmMem) (v : V) (d : Nat) : Prop :=
  ∀ w d' k, k < cfg.span → (w = v → d ≤ d') → HasTable cfg s (am w) d' k → HasTable cfg s' (am' w) d' k

/-- **`pte_get`** builds tables and changes no translation; it fails for want of a page or at a block. -/
theorem pteGet_spec {s : Hv} {am : V → ArchVmMem} {lab : Nat → Option (Label V)} {v : V}
    (h : Tables cfg s am lab) (hc : (am v).st2Table = 0 → RootClean cfg s) (ipa : Nat) {d : Nat} (hd : d ≤ 1) :
    ∃ lab', Tables cfg (pteGet cfg s (am v) ipa (3 - d)).1
        (Function.update am v (pteGet cfg s (am v) ipa (3 - d)).2.1) lab' ∧
      Ext cfg s (pteGet cfg s (am v) ipa (3 - d)).1 lab lab' ∧ SameWalks cfg s (pteGet cfg s (am v) ipa (3 - d)).1 am
        (Function.update am v (pteGet cfg s (am v) ipa (3 - d)).2.1) ∧
      KeepTables cfg s (pteGet cfg s (am v) ipa (3 - d)).1 am
        (Function.update am v (pteGet cfg s (am v) ipa (3 - d)).2.1) v 0 ∧
      ((pteGet cfg s (am v) ipa (3 - d)).2.1.st2Table = 0 → RootClean cfg (pteGet cfg s (am v) ipa (3 - d)).1) ∧
      Got cfg v lab' s (pteGet cfg s (am v) ipa (3 - d)).1 (am v)
        (pteGet cfg s (am v) ipa (3 - d)).2.1 d (cfg.key ipa) (pteGet cfg s (am v) ipa (3 - d)).2.2 := by
  rw [pteGet]
  split
  · rename_i hv
    obtain ⟨lab1, h1, e1, hret⟩ := initSt2Root_spec h hv (hc hv)
    have hl := h.rootless hv
    -- the new root translates nothing, and nothing else moves
    have hsame : SameWalks cfg s (initSt2Root cfg s (am v)).1 am
        (Function.update am v (initSt2Root cfg s (am v)).2.1) := by
      intro w k hk
      by_cases ew : w = v
      · rw [ew, Function.update_self, hl.vttbr, leafWalk_zero]
        rcases hret with ⟨-, -, -, -, hn⟩ | ⟨-, hn, -, -⟩
        · exact hn k hk
        · rw [hn.vttbr, leafWalk_zero]
      · rw [Function.update_of_ne ew]
        exact h.leafWalk_congr e1.quiet.walk w hk
    have hkeep : KeepTables cfg s (initSt2Root cfg s (am v)).1 am
        (Function.update am v (initSt2Root cfg s (am v)).2.1) v 0 := by
      intro w d' k hk _ ht
      by_cases ew : w = v
      · rw [ew] at ht
        exact absurd ht hl.noTable
      · rw [Function.update_of_ne ew]
        exact h.hasTable_mono e1.quiet hk ht
    rcases hret with ⟨hz, hr, hne, -, hn⟩ | ⟨hnz, -, hr, hcl⟩
    · simp only [hz, ne_eq, not_true, if_false]
      obtain ⟨lab2, h2, ea, e2, hG⟩ := pteGetRoot_spec (v := v) h1 (by rwa [Function.update_self]) ipa hd
      rw [Function.update_self] at h2 ea e2 hG
      rw [ea]
      refine ⟨lab2, h2, e1.trans e2, fun w k hk => ?_, fun w d' k hk hd' ht => ?_, fun hz => absurd hz hne, ?_⟩
      · rw [h1.leafWalk_congr e2.quiet.walk w hk]
        exact hsame w k hk
      · exact h1.hasTable_mono e2.quiet hk (hkeep w d' k hk hd' ht)
      · rcases hG with ⟨g, r, h3, h4, h5, h6, h7⟩ | ⟨h3, -, h4 | ⟨-, m, p, h5, -⟩⟩
        · exact .inl ⟨g, r, h3, h4, h5, h6, h7.trans hr⟩
        · exact .inr ⟨h3, hl.noTable, .inl (by rw [h4, hr])⟩
        · rw [hn _ (cfg.key_lt ipa)] at h5
          cases h5
    · simp only [ne_eq, hnz, not_false_eq_true, if_true]
      exact ⟨lab1, h1, e1, hsame, hkeep, fun _ => hcl, .inr ⟨rfl, hl.noTable, .inl hr⟩⟩
  · rename_i hv
    obtain ⟨lab1, h1, ea, e1, hG⟩ := pteGetRoot_spec (v := v) h hv ipa hd
    rw [ea, Function.update_eq_self]
    exact ⟨lab1, h1, e1, fun w k hk => h.leafWalk_congr e1.quiet.walk w hk,
      fun w d' k hk _ ht => h.hasTable_mono e1.quiet hk ht, fun hz => absurd hz hv, hG⟩

end LkHv
