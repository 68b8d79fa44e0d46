import LkHv.Stage2.Edit
import Mathlib.Data.Nat.ModEq

/-!
# The loops of `arch_mem_map` and `arch_mem_unmap`

* `editLoop_rule`   the rule of the loop: an invariant of the bytes done;
* `editLoop_spec`   what the loop does to the translations, page by page, also when it stops early;
* `Plan`            what a loop is about to write: `tgt o` is the translation of its page `o`.
-/

namespace LkHv
open Radix

variable {V : Type} [DecidableEq V] {cfg : Config}

/-- the round of the loop at `off`: its level and descriptor -/
def Round (block : Nat → Bool) (blockVal pageVal : Nat → Nat) (off d val : Nat) : Prop :=
  if block off then d = 1 ∧ val = blockVal off else d = 0 ∧ val = pageVal off

/-- **The loop rule.**  `Φ off` holds at the head of the loop when `off` bytes are done. -/
theorem editLoop_rule {err : Int} {block : Nat → Bool} {blockVal pageVal : Nat → Nat} {ipa len : Nat}
    {Φ : Nat → Hv → VmMem → Prop} {Ψ : Hv → VmMem → Int → Prop}
    (hdone : ∀ off s vm, Φ off s vm → len ≤ off → Ψ s vm 0)
    (hstep : ∀ off s vm d val, Φ off s vm → off < len → Round block blockVal pageVal off d val →
      ((setEntry cfg s vm (ipa + off) (3 - d) val).2.2 = true →
        Φ (off + PAGE_SIZE * 512 ^ d) (setEntry cfg s vm (ipa + off) (3 - d) val).1
          (setEntry cfg s vm (ipa + off) (3 - d) val).2.1) ∧
      ((setEntry cfg s vm (ipa + off) (3 - d) val).2.2 = false → Ψ (setEntry cfg s vm (ipa + off) (3 - d) val).1
          (setEntry cfg s vm (ipa + off) (3 - d) val).2.1 err)) :
    ∀ {n off : Nat} {s : Hv} {vm : VmMem}, Φ off s vm → len ≤ off + PAGE_SIZE * n →
      Ψ (editLoop cfg err block blockVal pageVal ipa len n s vm off).1
        (editLoop cfg err block blockVal pageVal ipa len n s vm off).2.1
        (editLoop cfg err block blockVal pageVal ipa len n s vm off).2.2 := by
  intro n
  induction n with
  | zero =>
    intro off s vm h hl
    exact hdone off s vm h hl
  | succ n ih =>
    intro off s vm h hl
    rw [editLoop]
    split
    · rename_i hle
      exact hdone off s vm h hle
    rename_i hlt
    split
    · rename_i hb
      obtain ⟨h1, h2⟩ := hstep off s vm 1 (blockVal off) h (by lia)
        (by rw [Round, if_pos hb]; exact ⟨rfl, rfl⟩)
      simp only
      split
      · rename_i hr
        refine ih (h1 hr) ?_
        simp only [PAGE_SIZE, VM_MEM_BLOCK_2M] at hl ⊢
        lia
      · rename_i hr
        exact h2 (by simpa using hr)
    · rename_i hb
      obtain ⟨h1, h2⟩ := hstep off s vm 0 (pageVal off) h (by lia)
        (by rw [Round, if_neg hb]; exact ⟨rfl, rfl⟩)
      simp only
      split
      · rename_i hr
        refine ih (h1 hr) ?_
        simp only [PAGE_SIZE] at hl ⊢
        lia
      · rename_i hr
        exact h2 (by simpa using hr)

/-! ## pages of a range -/

/-- page `o` of the range at `ipa` -/
def Config.page (cfg : Config) (ipa o : Nat) : Nat := (ipa / PAGE_SIZE + o) % cfg.span

theorem Config.page_lt (cfg : Config) (ipa o : Nat) : cfg.page ipa o < cfg.span := Nat.mod_lt _ cfg.span_pos

theorem Config.key_add (cfg : Config) (ipa : Nat) {off : Nat} (h : PAGE_SIZE ∣ off) :
    cfg.key (ipa + off) = cfg.page ipa (off / PAGE_SIZE) := by
  obtain ⟨c, rfl⟩ := h
  rw [key, page, Nat.add_mul_div_left _ _ (by decide : 0 < PAGE_SIZE),
    Nat.mul_div_cancel_left _ (by decide : 0 < PAGE_SIZE)]

/-- the pages of a range no longer than the root's are distinct -/
theorem Config.page_inj (cfg : Config) {ipa o o' : Nat} (ho : o < cfg.span) (ho' : o' < cfg.span)
    (h : cfg.page ipa o = cfg.page ipa o') : o = o' := by
  have h' : o ≡ o' [MOD cfg.span] := Nat.ModEq.add_left_cancel' (ipa / PAGE_SIZE) h
  rwa [Nat.ModEq, Nat.mod_eq_of_lt ho, Nat.mod_eq_of_lt ho'] at h'

theorem Config.dvd_span (cfg : Config) : 512 ∣ cfg.span := by
  rw [span, Nat.pow_succ]
  exact ⟨512 ^ cfg.top * 2 ^ cfg.rootOrder, by rw [Nat.mul_comm (512 ^ _), Nat.mul_assoc]⟩

/-- the pages of a block, from its first page on -/
theorem Config.page_block (cfg : Config) {ipa o : Nat} (h : 512 ∣ ipa / PAGE_SIZE + o) :
    512 ∣ cfg.page ipa o ∧ ∀ j < 512, cfg.page ipa (o + j) = cfg.page ipa o + j := by
  have hd : 512 ∣ cfg.page ipa o := (Nat.dvd_mod_iff cfg.dvd_span).mpr h
  refine ⟨hd, fun j hj => ?_⟩
  have hlt := cfg.page_lt ipa o
  obtain ⟨c, hc⟩ := hd
  obtain ⟨e, he⟩ := cfg.dvd_span
  have : cfg.page ipa o + j < cfg.span := by lia
  rw [page, ← Nat.add_assoc, Nat.add_mod, ← page, Nat.mod_eq_of_lt (by lia : j < cfg.span), Nat.mod_eq_of_lt this]

/-! ## what a loop does -/

/-- the output page of page `x` in what an entry of level `d` maps -/
def viewPage (d : Nat) (w : View Nat Nat) (x : Nat) : Option Nat := (viewLeaf d w).map fun r => r.2 + x % 512 ^ r.1

/-- a loop over `len` bytes that gives page `o` of the range the translation `tgt o` -/
structure Plan (cfg : Config) (ipa len : Nat) (block : Nat → Bool) (blockVal pageVal : Nat → Nat)
    (tgt : Nat → Option Nat) : Prop where
  pages : PAGE_SIZE ∣ len
  noWrap : len ≤ PAGE_SIZE * cfg.span
  aligned : ∀ off, off < len → PAGE_SIZE ∣ off → block off = true →
    512 ∣ ipa / PAGE_SIZE + off / PAGE_SIZE ∧ off + VM_MEM_BLOCK_2M ≤ len
  blockVal : ∀ off, off < len → PAGE_SIZE ∣ off → block off = true → EntryVal 1 (blockVal off) ∧
    ∀ x, viewPage 1 (entryView 1 (blockVal off)) x = tgt (off / PAGE_SIZE + x % 512)
  pageVal : ∀ off, off < len → PAGE_SIZE ∣ off → block off = false → EntryVal 0 (pageVal off) ∧
    ∀ x, viewPage 0 (entryView 0 (pageVal off)) x = tgt (off / PAGE_SIZE)

/-- all rounds of the loop are of level `d` -/
def Uniform (len : Nat) (block : Nat → Bool) (d : Nat) : Prop :=
  d ≤ 1 ∧ ∀ m, PAGE_SIZE * m < len → 512 ^ d ∣ m → block (PAGE_SIZE * m) = decide (d = 1)

/-- the state when `m` pages of the range are done -/
structure Upto (cfg : Config) (s s' : Hv) (am : V → ArchVmMem) (v : V) (vm vm' : VmMem) (ipa : Nat)
    (len : Nat) (block : Nat → Bool) (tgt : Nat → Option Nat) (lab lab' : Nat → Option (Label V))
    (m : Nat) : Prop where
  head : ∀ d, Uniform len block d → 512 ^ d ∣ m
  clean : vm'.archMem.st2Table = 0 → RootClean cfg s'
  tables : Tables cfg s' (setAm am v vm') lab'
  grow : Grow s s' lab lab'
  segs : SameSegs vm vm'
  frame : ∀ w x, x < cfg.span → (w = v → ∀ o < m, x ≠ cfg.page ipa o) →
    leafWalk cfg s'.mem (setAm am v vm' w).vttbr x = leafWalk cfg s.mem (am w).vttbr x
  done : ∀ o < m, pageWalk cfg s'.mem vm'.archMem.vttbr (cfg.page ipa o) = tgt o
  small : SmallLeaves cfg s am → SmallLeaves cfg s' (setAm am v vm')
  keep : ∀ d, (d = 0 → Uniform len block 0) → KeepTables cfg s s' am (setAm am v vm') v d
  here : ∀ d, Uniform len block d → ∀ o < m, HasTable cfg s' vm'.archMem d (cfg.page ipa o)

/-- `R` holds of the offsets at the head of the loop -/
structure Heads (len : Nat) (block : Nat → Bool) (R : Nat → Prop) : Prop where
  zero : R 0
  blocks : ∀ m, PAGE_SIZE * m < len → R (PAGE_SIZE * m) → block (PAGE_SIZE * m) = true →
    R (PAGE_SIZE * m + VM_MEM_BLOCK_2M)
  pages : ∀ m, PAGE_SIZE * m < len → R (PAGE_SIZE * m) → block (PAGE_SIZE * m) = false → R (PAGE_SIZE * m + PAGE_SIZE)

theorem Heads.true (len : Nat) (block : Nat → Bool) : Heads len block fun _ => True :=
  ⟨trivial, fun _ _ _ _ => trivial, fun _ _ _ _ => trivial⟩

theorem Heads.next {len : Nat} {block : Nat → Bool} {R : Nat → Prop} (h : Heads len block R)
    {blockVal pageVal : Nat → Nat} {m d val : Nat} (hm : PAGE_SIZE * m < len) (hR : R (PAGE_SIZE * m))
    (hr : Round block blockVal pageVal (PAGE_SIZE * m) d val) : R (PAGE_SIZE * (m + 512 ^ d)) := by
  rw [Nat.mul_add]
  rw [Round] at hr
  split at hr
  · rename_i hb
    obtain ⟨rfl, -⟩ := hr
    exact h.blocks m hm hR hb
  · rename_i hb
    obtain ⟨rfl, -⟩ := hr
    exact h.pages m hm hR (by simpa using hb)

/-- where a loop stopped early: at a page whose table is missing -/
def Stopped (cfg : Config) (s s' : Hv) (a : ArchVmMem) (ipa len : Nat) (block : Nat → Bool) (m : Nat) : Prop :=
  (∀ d, Uniform len block d → ¬ HasTable cfg s a d (cfg.page ipa m)) ∧
    (s'.pmm.refused = s.pmm.refused + 1 ∨ s'.pmm.refused = s.pmm.refused ∧
      Blocked cfg s a (if block (PAGE_SIZE * m) then 1 else 0) (cfg.page ipa m))

section
variable {s : Hv} {am : V → ArchVmMem} {lab : Nat → Option (Label V)} {v : V} {vm : VmMem}
  {ipa len : Nat} {block : Nat → Bool} {blockVal pageVal : Nat → Nat} {tgt : Nat → Option Nat}

theorem Upto.start (h : Tables cfg s am lab) (ha : vm.archMem = am v) (hc : (am v).st2Table = 0 → RootClean cfg s) :
    Upto cfg s s am v vm vm ipa len block tgt lab lab 0 := by
  have e : setAm am v vm = am := by rw [setAm, ha, Function.update_eq_self]
  refine ⟨fun _ _ => Nat.dvd_zero _, by rwa [ha], by rwa [e], Grow.refl _ _, ⟨rfl, rfl⟩, fun w x _ _ => by rw [e],
    fun o ho => absurd ho (Nat.not_lt_zero o), ?_, fun d _ => ?_,
    fun d _ o ho => absurd ho (Nat.not_lt_zero o)⟩
  · rw [e]
    exact fun h => h
  · rw [e]
    exact fun _ _ _ _ _ ht => ht

/-- which pages a round at page `m` writes -/
theorem Plan.round_pages (hp : Plan cfg ipa len block blockVal pageVal tgt) {m d val : Nat}
    (hm : PAGE_SIZE * m < len) (hr : Round block blockVal pageVal (PAGE_SIZE * m) d val) :
    d ≤ 1 ∧ EntryVal d val ∧ PAGE_SIZE * (m + 512 ^ d) ≤ len ∧
      (∀ j < 512 ^ d, cfg.page ipa (m + j) = cfg.page ipa m + j) ∧ 512 ^ d ∣ cfg.page ipa m ∧
      (∀ x, viewPage d (entryView d val) x = tgt (m + x % 512 ^ d)) ∧
      (∀ e, Uniform len block e → 512 ^ e ∣ m → d = e) := by
  have hdvd : PAGE_SIZE ∣ PAGE_SIZE * m := Nat.dvd_mul_right _ _
  have hdiv : PAGE_SIZE * m / PAGE_SIZE = m := Nat.mul_div_cancel_left _ (by decide)
  rw [Round] at hr
  split at hr
  · rename_i hb
    obtain ⟨rfl, rfl⟩ := hr
    obtain ⟨h1, h2⟩ := hp.aligned _ hm hdvd hb
    obtain ⟨h3, h4⟩ := hp.blockVal _ hm hdvd hb
    rw [hdiv] at h1 h4
    obtain ⟨h5, h6⟩ := cfg.page_block h1
    refine ⟨le_rfl, h3, ?_, h6, h5, h4, fun e he hm' => ?_⟩
    · rw [Nat.mul_add, show PAGE_SIZE * 512 ^ 1 = VM_MEM_BLOCK_2M by decide]
      exact h2
    · have := he.2 m hm hm'
      rw [hb] at this
      simpa [eq_comm] using this
  · rename_i hb
    obtain ⟨rfl, rfl⟩ := hr
    have hb : block (PAGE_SIZE * m) = false := by simpa using hb
    obtain ⟨h3, h4⟩ := hp.pageVal _ hm hdvd hb
    rw [hdiv] at h4
    refine ⟨by lia, h3, ?_, ?_, Nat.one_dvd _, ?_, fun e he hm' => ?_⟩
    · obtain ⟨c, hc⟩ := hp.pages
      rw [hc] at hm ⊢
      exact Nat.mul_le_mul_left _ (Nat.lt_of_mul_lt_mul_left hm)
    · intro j hj
      obtain rfl : j = 0 := by simpa using hj
      rfl
    · intro x
      rw [h4, Nat.pow_zero, Nat.mod_one, Nat.add_zero]
    · have := he.2 m hm hm'
      rw [hb] at this
      have h1 := he.1
      simp at this
      lia

/-- pages of the range are apart, since the range is no longer than the root's -/
theorem Plan.page_ne (hp : Plan cfg ipa len block blockVal pageVal tgt) {o o' : Nat}
    (ho : PAGE_SIZE * o < len) (ho' : PAGE_SIZE * o' < len) (h : o ≠ o') : cfg.page ipa o ≠ cfg.page ipa o' := by
  have := hp.noWrap
  refine fun e => h (cfg.page_inj ?_ ?_ e)
  · exact Nat.lt_of_mul_lt_mul_left (Nat.lt_of_lt_of_le ho this)
  · exact Nat.lt_of_mul_lt_mul_left (Nat.lt_of_lt_of_le ho' this)

/-- the pages of an entry are the pages a round writes -/
theorem div_eq_iff_block {d p x : Nat} (h : 512 ^ d ∣ p) : x / 512 ^ d = p / 512 ^ d ↔ ∃ j < 512 ^ d, x = p + j := by
  obtain ⟨c, rfl⟩ := h
  have hpos : 0 < 512 ^ d := Nat.pow_pos (by decide)
  rw [Nat.mul_div_cancel_left _ hpos, Nat.div_eq_iff hpos]
  constructor
  · rintro ⟨h1, h2⟩
    refine ⟨x - 512 ^ d * c, ?_, ?_⟩ <;> rw [Nat.mul_comm c] at * <;> omega
  · rintro ⟨j, hj, rfl⟩
    rw [Nat.mul_comm c]
    omega

/-- a round that wrote its entry -/
theorem Upto.step {s' s'' : Hv} {vm' vm'' : VmMem} {lab' lab'' : Nat → Option (Label V)} {m d val : Nat}
    (hp : Plan cfg ipa len block blockVal pageVal tgt) (h : Upto cfg s s' am v vm vm' ipa len block tgt lab lab' m)
    (hm : PAGE_SIZE * m < len) (hr : Round block blockVal pageVal (PAGE_SIZE * m) d val)
    (ht : Tables cfg s'' (setAm am v vm'') lab'') (hg : Grow s' s'' lab' lab'') (hs : SameSegs vm' vm'')
    (ho : RoundOk cfg s' s'' (setAm am v vm') (setAm am v vm'') v d (cfg.page ipa m) val) :
    Upto cfg s s'' am v vm vm'' ipa len block tgt lab lab'' (m + 512 ^ d) := by
  obtain ⟨hd1, -, hle, hpg, hdvd, htgt, huni⟩ := hp.round_pages hm hr
  have hin : ∀ x, x / 512 ^ d = cfg.page ipa m / 512 ^ d ↔ ∃ j < 512 ^ d, x = cfg.page ipa (m + j) := by
    intro x
    rw [div_eq_iff_block hdvd]
    refine exists_congr fun j => and_congr_right fun hj => ?_
    rw [hpg j hj]
  have hlt : ∀ o, o < m + 512 ^ d → PAGE_SIZE * o < len := fun o ho =>
    Nat.lt_of_lt_of_le (Nat.mul_lt_mul_of_pos_left ho (by decide)) hle
  refine ⟨fun e he => ?_, fun hz => ?_, ht, h.grow.trans hg,
    ⟨hs.1.trans h.segs.1, hs.2.trans h.segs.2⟩, ?_, ?_, ?_, ?_, ?_⟩
  · obtain rfl := huni e he (h.head e he)
    exact Nat.dvd_add (h.head d he) (Nat.dvd_refl _)
  · have := ho.root
    rw [setAm, Function.update_self] at this
    exact absurd hz this
  · intro w x hx hn
    rw [ho.edited w x hx, if_neg, h.frame w x hx fun e o ho => hn e o (by lia)]
    rintro ⟨e, hx'⟩
    obtain ⟨j, hj, rfl⟩ := (hin x).mp hx'
    exact hn e (m + j) (by lia) rfl
  · intro o ho'
    have hx := cfg.page_lt ipa o
    have := ho.edited v _ hx
    rw [setAm, setAm, Function.update_self, Function.update_self] at this
    rw [pageWalk, this]
    by_cases hom : o < m
    · rw [if_neg, ← pageWalk, h.done o hom]
      rintro ⟨-, hx'⟩
      obtain ⟨j, hj, e⟩ := (hin _).mp hx'
      exact hp.page_ne (hlt o (by lia)) (hlt (m + j) (by lia)) (by lia) e
    · obtain ⟨j, rfl⟩ : ∃ j, o = m + j := ⟨o - m, by lia⟩
      have hj : j < 512 ^ d := by lia
      rw [if_pos ⟨rfl, (hin _).mpr ⟨j, hj, rfl⟩⟩, ← viewPage, htgt, hpg j hj]
      obtain ⟨c, hc⟩ := hdvd
      rw [hc, Nat.mul_add_mod, Nat.mod_eq_of_lt hj]
  · exact fun h0 => ho.edited.small hd1 (h.small h0)
  · intro d' hd' w e k hk hle' htab
    refine ho.keep w e k hk (fun ew => ?_) (h.keep d' hd' w e k hk hle' htab)
    have := hle' ew
    by_cases e0 : d' = 0
    · have := huni 0 (hd' e0) (by rw [Nat.pow_zero]; exact Nat.one_dvd m)
      lia
    · lia
  · intro e he o ho'
    obtain rfl := huni e he (h.head e he)
    have hkeep : ∀ x, x < cfg.span → HasTable cfg s' vm'.archMem d x → HasTable cfg s'' vm''.archMem d x := by
      intro x hx htab
      have := ho.keep v d x hx fun _ => le_rfl
      rw [setAm, setAm, Function.update_self, Function.update_self] at this
      exact this htab
    by_cases hom : o < m
    · exact hkeep _ (cfg.page_lt _ _) (h.here d he o hom)
    · obtain ⟨j, rfl⟩ : ∃ j, o = m + j := ⟨o - m, by lia⟩
      have h1 := ho.here
      rw [setAm, Function.update_self] at h1
      refine h1.congr (by have := cfg.top_eq; lia) ?_
      have hj := (hin (cfg.page ipa (m + j))).mpr ⟨j, by lia, rfl⟩
      exact div_pow_of_le hj (by lia)

/-- a round that found no entry -/
theorem Upto.fail {s' s'' : Hv} {vm' vm'' : VmMem} {lab' lab'' : Nat → Option (Label V)} {m d : Nat}
    (h : Upto cfg s s' am v vm vm' ipa len block tgt lab lab' m)
    (ht : Tables cfg s'' (setAm am v vm'') lab'') (hg : Grow s' s'' lab' lab'') (hs : SameSegs vm' vm'')
    (hf : RoundFail cfg s' s'' (setAm am v vm') (setAm am v vm'') v d (cfg.page ipa m)) :
    Upto cfg s s'' am v vm vm'' ipa len block tgt lab lab'' m := by
  have hv : ∀ x, x < cfg.span → leafWalk cfg s''.mem vm''.archMem.vttbr x
      = leafWalk cfg s'.mem vm'.archMem.vttbr x := by
    intro x hx
    have := hf.same v x hx
    rwa [setAm, setAm, Function.update_self, Function.update_self] at this
  refine ⟨h.head, fun hz => hf.clean (by rwa [setAm, Function.update_self]), ht, h.grow.trans hg,
    ⟨hs.1.trans h.segs.1, hs.2.trans h.segs.2⟩, ?_, ?_, ?_, ?_, ?_⟩
  · intro w x hx hn
    rw [hf.same w x hx, h.frame w x hx hn]
  · intro o ho
    rw [pageWalk, hv _ (cfg.page_lt _ _), ← pageWalk, h.done o ho]
  · exact fun h0 => hf.same.small (h.small h0)
  · intro d' hd' w e k hk hle htab
    exact hf.keep w e k hk (fun _ => Nat.zero_le _) (h.keep d' hd' w e k hk hle htab)
  · intro e he o ho
    have := hf.keep v e (cfg.page ipa o) (cfg.page_lt _ _) fun _ => Nat.zero_le _
    rw [setAm, setAm, Function.update_self, Function.update_self] at this
    exact this (h.here e he o ho)

theorem Upto.stopped {s' s'' : Hv} {vm' vm'' : VmMem} {lab' : Nat → Option (Label V)} {m d val : Nat}
    (hp : Plan cfg ipa len block blockVal pageVal tgt) (h : Upto cfg s s' am v vm vm' ipa len block tgt lab lab' m)
    (hm : PAGE_SIZE * m < len) (hr : Round block blockVal pageVal (PAGE_SIZE * m) d val)
    (href : s'.pmm.refused = s.pmm.refused)
    (hf : RoundFail cfg s' s'' (setAm am v vm') (setAm am v vm'') v d (cfg.page ipa m)) :
    Stopped cfg s s'' (am v) ipa len block m := by
  refine ⟨fun e he htab => ?_, ?_⟩
  · obtain rfl := (hp.round_pages hm hr).2.2.2.2.2.2 e he (h.head e he)
    exact hf.missing (h.keep d (fun e0 => e0 ▸ he) v d _ (cfg.page_lt _ _) (fun _ => le_rfl) htab)
  · have hd : d = if block (PAGE_SIZE * m) then 1 else 0 := by
      rw [Round] at hr
      split at hr <;> simp_all
    rw [← href, ← hd]
    refine hf.why.imp id (And.imp id ?_)
    rintro ⟨l, p, h1, h2⟩
    refine ⟨l, p, ?_, h2⟩
    rwa [h.frame v _ (cfg.page_lt _ _)] at h1
    intro _ o ho
    exact hp.page_ne hm (Nat.lt_trans (Nat.mul_lt_mul_of_pos_left ho (by decide)) hm) (by omega)

/-- **The loop**: `m` pages of the range are done, all of them unless it stopped early. -/
theorem editLoop_spec (err : Int) (hp : Plan cfg ipa len block blockVal pageVal tgt)
    {R : Nat → Prop} (hR : Heads len block R)
    (h : Tables cfg s am lab) (ha : vm.archMem = am v) (hc : (am v).st2Table = 0 → RootClean cfg s)
    {n : Nat} (hn : len ≤ PAGE_SIZE * n) :
    ∃ lab' m, Upto cfg s (editLoop cfg err block blockVal pageVal ipa len n s vm 0).1 am v vm
        (editLoop cfg err block blockVal pageVal ipa len n s vm 0).2.1 ipa len block tgt lab lab' m ∧
      (((editLoop cfg err block blockVal pageVal ipa len n s vm 0).2.2 = 0 ∧ PAGE_SIZE * m = len ∧
          (editLoop cfg err block blockVal pageVal ipa len n s vm 0).1.pmm.refused = s.pmm.refused) ∨
        ((editLoop cfg err block blockVal pageVal ipa len n s vm 0).2.2 = err ∧ PAGE_SIZE * m < len ∧
          R (PAGE_SIZE * m) ∧ Stopped cfg s (editLoop cfg err block blockVal pageVal ipa len n s vm 0).1 (am v) ipa len block
            m)) := by
  refine editLoop_rule
    (Φ := fun off s' vm' => ∃ m lab', off = PAGE_SIZE * m ∧ PAGE_SIZE * m ≤ len ∧ R (PAGE_SIZE * m) ∧
      Upto cfg s s' am v vm vm' ipa len block tgt lab lab' m ∧ s'.pmm.refused = s.pmm.refused)
    (Ψ := fun s' vm' ret => ∃ lab' m, Upto cfg s s' am v vm vm' ipa len block tgt lab lab' m ∧
      ((ret = 0 ∧ PAGE_SIZE * m = len ∧ s'.pmm.refused = s.pmm.refused) ∨
        (ret = err ∧ PAGE_SIZE * m < len ∧ R (PAGE_SIZE * m) ∧ Stopped cfg s s' (am v) ipa len block m)))
    ?_ ?_ ⟨0, lab, rfl, Nat.zero_le _, hR.zero, Upto.start h ha hc, rfl⟩ (by lia)
  · rintro off s' vm' ⟨m, lab', rfl, hle, -, hu, hr⟩ hge
    exact ⟨lab', m, hu, .inl ⟨rfl, by lia, hr⟩⟩
  · rintro off s' vm' d val ⟨m, lab', rfl, hle, hRm, hu, href⟩ hm hr
    obtain ⟨hd1, hval, hle', -, -, -, -⟩ := hp.round_pages hm hr
    have hself : setAm am v vm' v = vm'.archMem := Function.update_self _ _ _
    obtain ⟨lab'', ht, hg, hs, hout⟩ := setEntry_spec (v := v) vm' hu.tables hself.symm
      (by rw [hself]; exact hu.clean) (ipa + PAGE_SIZE * m) hd1 hval
    rw [setAm_setAm] at ht
    rw [cfg.key_add _ (Nat.dvd_mul_right _ _), Nat.mul_div_cancel_left _ (by decide : 0 < PAGE_SIZE),
      setAm_setAm] at hout
    constructor
    · intro hok
      rcases hout with ⟨-, ho⟩ | ⟨hno, -⟩
      · exact ⟨m + 512 ^ d, lab'', (Nat.mul_add _ _ _).symm, hle', hR.next hm hRm hr, hu.step hp hm hr ht hg hs ho,
          ho.refused.trans href⟩
      · rw [hno] at hok
        cases hok
    · intro hbad
      rcases hout with ⟨hyes, -⟩ | ⟨-, hf⟩
      · rw [hyes] at hbad
        cases hbad
      · exact ⟨lab'', m, hu.fail ht hg hs hf, .inr ⟨rfl, hm, hRm, hu.stopped hp hm hr href hf⟩⟩

/-- **The loop, for any arguments**: the invariant stays. -/
theorem editLoop_tables {err : Int} (hv : ∀ off d val, Round block blockVal pageVal off d val → EntryVal d val)
    (h : Tables cfg s am lab) (ha : vm.archMem = am v) (hc : (am v).st2Table = 0 → RootClean cfg s)
    (hsm : SmallLeaves cfg s am) {n : Nat} (hn : len ≤ PAGE_SIZE * n) :
    ∃ lab', Tables cfg (editLoop cfg err block blockVal pageVal ipa len n s vm 0).1
        (setAm am v (editLoop cfg err block blockVal pageVal ipa len n s vm 0).2.1) lab' ∧
      Grow s (editLoop cfg err block blockVal pageVal ipa len n s vm 0).1 lab lab' ∧
      SmallLeaves cfg (editLoop cfg err block blockVal pageVal ipa len n s vm 0).1
        (setAm am v (editLoop cfg err block blockVal pageVal ipa len n s vm 0).2.1) := by
  have e : setAm am v vm = am := by rw [setAm, ha, Function.update_eq_self]
  refine editLoop_rule
    (Φ := fun _ s' vm' => ∃ lab', Tables cfg s' (setAm am v vm') lab' ∧ Grow s s' lab lab' ∧
      SmallLeaves cfg s' (setAm am v vm') ∧ (vm'.archMem.st2Table = 0 → RootClean cfg s'))
    (Ψ := fun s' vm' _ => ∃ lab', Tables cfg s' (setAm am v vm') lab' ∧ Grow s s' lab lab' ∧
      SmallLeaves cfg s' (setAm am v vm'))
    ?_ ?_ ⟨lab, by rwa [e], Grow.refl _ _, by rwa [e], by rwa [ha]⟩ (by lia)
  · rintro off s' vm' ⟨lab', h1, h2, h3, -⟩ -
    exact ⟨lab', h1, h2, h3⟩
  · rintro off s' vm' d val ⟨lab', h1, h2, h3, h4⟩ - hr
    have hd : d ≤ 1 := by
      rw [Round] at hr
      split at hr <;> lia
    have hself : setAm am v vm' v = vm'.archMem := Function.update_self _ _ _
    obtain ⟨lab'', ht, hg, hs, hroot⟩ := setEntry_tables (v := v) vm' h1 hself.symm
      (by rwa [hself]) h3 (ipa + off) hd (hv off d val hr)
    rw [setAm_setAm] at ht hs
    constructor
    · intro hok
      exact ⟨lab'', ht, h2.trans hg, hs, fun hz => absurd hz (hroot hok)⟩
    · intro _
      exact ⟨lab'', ht, h2.trans hg, hs⟩

end

/-! ## the plans of the two functions -/

theorem entryVal_page (val : Nat) : EntryVal 0 val := by
  intro g
  rw [entryView]
  repeat' split
  all_goals simp_all

theorem and_mask_eq_zero (x : Nat) : (x &&& VM_MEM_BLOCK_MASK == 0) = true ↔ VM_MEM_BLOCK_2M ∣ x := by
  rw [VM_MEM_BLOCK_MASK, Nat.and_two_pow_sub_one_eq_mod, beq_iff_eq, VM_MEM_BLOCK_2M, Nat.dvd_iff_mod_eq_zero]

theorem blockStep_iff (pa ipa len : Nat) : blockStep pa ipa len = true ↔
    VM_MEM_BLOCK_2M ∣ pa ∧ VM_MEM_BLOCK_2M ∣ ipa ∧ VM_MEM_BLOCK_2M ∣ len := by
  rw [blockStep, Bool.and_eq_true, Bool.and_eq_true, and_mask_eq_zero, and_mask_eq_zero, and_mask_eq_zero, and_assoc]

theorem mapRound_entryVal {pa ipa len off d val : Nat}
    (h : Round (fun off => blockStep (pa + off) (ipa + off) (len - off))
      (fun off => MMU_PTE_BLOCK ||| (pa + off)) (fun off => MMU_PTE_TABLE ||| (pa + off)) off d val) :
    EntryVal d val := by
  rw [Round] at h
  split at h
  · rename_i hb
    obtain ⟨rfl, rfl⟩ := h
    intro g
    rw [entryView_block ((blockStep_iff _ _ _).mp hb).1]
    simp
  · obtain ⟨rfl, rfl⟩ := h
    exact entryVal_page _

theorem unmapRound_entryVal {block : Nat → Bool} {off d val : Nat}
    (h : Round block (fun _ => 0) (fun _ => 0) off d val) : EntryVal d val := by
  have : val = 0 := by
    rw [Round] at h
    split at h <;> exact h.2
  rw [this]
  exact entryVal_zero d

/-- a block round takes 512 pages at an aligned page -/
theorem block_aligned {pa ipa len off : Nat} (hlt : off < len) (ho : PAGE_SIZE ∣ off)
    (h : blockStep pa (ipa + off) (len - off) = true) :
    512 ∣ ipa / PAGE_SIZE + off / PAGE_SIZE ∧ off + VM_MEM_BLOCK_2M ≤ len := by
  obtain ⟨-, ⟨c, hc⟩, ⟨e, he⟩⟩ := (blockStep_iff _ _ _).mp h
  obtain ⟨o, rfl⟩ := ho
  simp only [VM_MEM_BLOCK_2M, PAGE_SIZE] at *
  refine ⟨⟨c, by omega⟩, ?_⟩
  rcases e with _ | e <;> omega

/-- `arch_mem_map` gives page `o` of the range page `pa / PAGE_SIZE + o` -/
theorem mapPlan (cfg : Config) {pa ipa len : Nat} (hl : PAGE_SIZE ∣ len)
    (hn : len ≤ PAGE_SIZE * cfg.span) (hpa : pa + len ≤ 2 ^ 48) :
    Plan cfg ipa len (fun off => blockStep (pa + off) (ipa + off) (len - off))
      (fun off => MMU_PTE_BLOCK ||| (pa + off)) (fun off => MMU_PTE_TABLE ||| (pa + off))
      fun o => some (pa / PAGE_SIZE + o) := by
  have hpage : ∀ off, off < len → PAGE_SIZE ∣ off →
      (pa + off) / PAGE_SIZE % 2 ^ 36 = pa / PAGE_SIZE + off / PAGE_SIZE := by
    rintro off hlt ⟨c, rfl⟩
    rw [Nat.add_mul_div_left _ _ (by decide : 0 < PAGE_SIZE), Nat.mul_div_cancel_left _ (by decide : 0 < PAGE_SIZE)]
    apply Nat.mod_eq_of_lt
    simp only [PAGE_SIZE] at *
    lia
  refine ⟨hl, hn, fun off hlt ho hb => block_aligned hlt ho hb, fun off hlt ho hb => ?_,
    fun off hlt ho hb => ⟨entryVal_page _, fun x => ?_⟩⟩
  · have hv := entryView_block ((blockStep_iff _ _ _).mp hb).1
    rw [hpage off hlt ho] at hv
    refine ⟨fun g => by rw [hv]; simp, fun x => ?_⟩
    rw [hv, viewPage, viewLeaf, Option.map_some, Nat.pow_one, Nat.add_assoc]
  · rw [entryView_page, hpage off hlt ho, viewPage, viewLeaf, Option.map_some, Nat.pow_zero, Nat.mod_one,
      Nat.add_zero]

/-- `arch_mem_unmap` leaves no page of the range -/
theorem unmapPlan (cfg : Config) {ipa len : Nat} (hl : PAGE_SIZE ∣ len) (hn : len ≤ PAGE_SIZE * cfg.span) :
    Plan cfg ipa len (fun off => blockStep (ipa + off) (ipa + off) (len - off)) (fun _ => 0)
      (fun _ => 0) fun _ => none :=
  ⟨hl, hn, fun _ hlt ho hb => block_aligned hlt ho hb,
    fun _ _ _ _ => ⟨entryVal_zero _, fun x => by rw [entryView_zero]; rfl⟩,
    fun _ _ _ _ => ⟨entryVal_zero _, fun x => by rw [entryView_zero]; rfl⟩⟩

end LkHv
