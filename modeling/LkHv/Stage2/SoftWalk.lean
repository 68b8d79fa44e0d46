import LkHv.Stage2.Meaning
import Mathlib.Tactic.Ring

/-!
# The software walk

`ipa_to_pa` walks the tables of a VM as the hardware does, but its loop ends above the last level: it never
reads a level-3 entry, and takes the level-2 descriptor for the page.

* `ipaToPa_eq`          what `ipa_to_pa` returns, in terms of the hardware's lookup;
* `WalksAgree`          it returns the address of the reference walk, and 0 exactly where that faults;
* `ipaToPa_agrees_iff`  when it does, in every reachable state.
-/

namespace LkHv
open Radix

variable {cfg : Config}

/-! ## reachable states, without a guard -/

/-- pages stay where they are and allocated ones stay allocated -/
structure PmmKept (s s' : Pmm) : Prop where
  wf : s'.Wf
  ram : ∀ p, s'.Ram p ↔ s.Ram p
  nonfree : ∀ p, s.nonfree p = true → s'.nonfree p = true

theorem PmmKept.refl {s : Pmm} (h : s.Wf) : PmmKept s s := ⟨h, fun _ => Iff.rfl, fun _ h => h⟩

theorem PmmKept.trans {s s' s'' : Pmm} (h : PmmKept s s') (h' : PmmKept s' s'') : PmmKept s s'' :=
  ⟨h'.wf, fun p => (h'.ram p).trans (h.ram p), fun p hp => h'.nonfree p (h.nonfree p hp)⟩

theorem Pmm.Takes.kept {s s' : Pmm} {pgs : List Nat} (h : s.Takes s' pgs) : PmmKept s s' :=
  ⟨h.wf, h.ram, fun p hp => by rw [h.nonfree, setNonfree, hp, Bool.true_or]⟩

/-- the root fields of a VM agree -/
def RootOk (a : ArchVmMem) : Prop :=
  Rootless a ∨ ∃ r, 0 < r ∧ r < 2 ^ 36 ∧ a.st2Table = PAGE_SIZE * r ∧
    a.st2RootKva = some (PAGE_SIZE * r) ∧ a.vttbr = a.vmid * 2 ^ 48 + PAGE_SIZE * r

/-- all memory of the allocator is mapped in the kernel -/
def AllMapped (cfg : Config) (s : Pmm) : Prop := ∀ p, s.Ram p → cfg.kmapped (PAGE_SIZE * p) = true

theorem pteWalk_kept (ipa : Nat) : ∀ (n i kva : Nat) {s : Hv}, s.pmm.Wf →
    PmmKept s.pmm (pteWalk cfg ipa n i kva s).1.pmm := by
  intro n
  induction n with
  | zero =>
    intro i kva s h
    exact PmmKept.refl h
  | succ n ih =>
    intro i kva s h
    rw [pteWalk]
    simp only
    split
    · rcases h.allocPage with ⟨pg, e, ht, -⟩ | ⟨e, ht, -⟩
      · rw [e]
        exact ht.kept.trans (ih (i + 1) (PAGE_SIZE * pg)
          (s := Hv.write cfg (Hv.clearPage cfg { s with pmm := (pmmAllocPage s.pmm).1 } pg)
            (kva + 8 * pteIndex cfg ipa i) (MMU_PTE_TABLE ||| PAGE_SIZE * pg)) ht.wf)
      · rw [e]
        exact ht.kept
    · split
      · exact PmmKept.refl h
      · exact ih _ _ h

theorem initSt2Root_kept {s : Hv} {a : ArchVmMem} (h : s.pmm.Wf) (hk : AllMapped cfg s.pmm)
    (ha : RootOk a) (h0 : a.st2Table = 0) :
    PmmKept s.pmm (initSt2Root cfg s a).1.pmm ∧ RootOk (initSt2Root cfg s a).2.1 := by
  have hl : Rootless a := by
    rcases ha with h | ⟨r, h1, -, h2, -⟩
    · exact h
    · rw [h0, PAGE_SIZE] at h2
      lia
  have hpow : 1 <<< cfg.rootOrder = 2 ^ cfg.rootOrder := Nat.one_shiftLeft _
  have hpos : 0 < 2 ^ cfg.rootOrder := Nat.pow_pos (by decide)
  rcases h.allocContiguous (1 <<< cfg.rootOrder) (PAGE_SIZE_SHIFT + cfg.rootOrder) (by lia) with
    ⟨pg, e, ht, -⟩ | ⟨e, ht, -⟩
  · obtain ⟨hram, -⟩ := ht.free pg (by rw [List.mem_range'_1]; lia)
    obtain ⟨h1, h2⟩ := h.ram_lt hram
    rw [initSt2Root]
    simp only [e, if_pos (hk pg hram)]
    refine ⟨ht.kept, .inr ⟨pg, h1, h2, rfl, rfl, ?_⟩⟩
    rw [← Nat.shiftLeft_add_eq_or_of_lt (by rw [VTCR_EL2_VMID_BITS, PAGE_SIZE]; lia), Nat.shiftLeft_eq]
    rfl
  · rw [initSt2Root]
    simp only [e]
    exact ⟨ht.kept, .inl ⟨hl.table, hl.kva, hl.vttbr⟩⟩

theorem pteGet_kept {s : Hv} {a : ArchVmMem} (h : s.pmm.Wf) (hk : AllMapped cfg s.pmm) (ha : RootOk a)
    (ipa level : Nat) : PmmKept s.pmm (pteGet cfg s a ipa level).1.pmm ∧ RootOk (pteGet cfg s a ipa level).2.1 := by
  have hroot : ∀ {s : Hv} {a : ArchVmMem}, s.pmm.Wf → RootOk a → PmmKept s.pmm (pteGetRoot cfg s a ipa level).1.pmm ∧
        RootOk (pteGetRoot cfg s a ipa level).2.1 := by
    intro s a h ha
    rw [pteGetRoot]
    split
    · exact ⟨PmmKept.refl h, ha⟩
    · exact ⟨pteWalk_kept _ _ _ _ h, ha⟩
  rw [pteGet]
  split
  · rename_i h0
    obtain ⟨h1, h2⟩ := initSt2Root_kept h hk ha h0
    simp only
    split
    · exact ⟨h1, h2⟩
    · obtain ⟨h3, h4⟩ := hroot h1.wf h2
      exact ⟨h1.trans h3, h4⟩
  · exact hroot h ha

theorem setEntry_kept {s : Hv} {vm : VmMem} (h : s.pmm.Wf) (hk : AllMapped cfg s.pmm)
    (ha : RootOk vm.archMem) (ipa level val : Nat) : PmmKept s.pmm (setEntry cfg s vm ipa level val).1.pmm ∧
      RootOk (setEntry cfg s vm ipa level val).2.1.archMem := by
  obtain ⟨h1, h2⟩ := pteGet_kept h hk ha ipa level
  rw [setEntry]
  simp only
  split
  · exact ⟨h1, h2⟩
  · refine ⟨by rw [memPteSet_pmm]; exact h1, ?_⟩
    rcases memPteSet_vm cfg (pteGet cfg s vm.archMem ipa level).1
      { vm with archMem := (pteGet cfg s vm.archMem ipa level).2.1 } _ val ipa with e | e <;> rw [e] <;>
        exact h2

theorem editLoop_kept {s : Hv} {vm : VmMem} {err : Int} {block : Nat → Bool} {bv pv : Nat → Nat}
    {ipa len n : Nat} (h : s.pmm.Wf) (hk : AllMapped cfg s.pmm) (ha : RootOk vm.archMem) (hn : len ≤ PAGE_SIZE * n) :
    PmmKept s.pmm (editLoop cfg err block bv pv ipa len n s vm 0).1.pmm ∧
      RootOk (editLoop cfg err block bv pv ipa len n s vm 0).2.1.archMem := by
  refine editLoop_rule
    (Φ := fun _ s' vm' => PmmKept s.pmm s'.pmm ∧ RootOk vm'.archMem)
    (Ψ := fun s' vm' _ => PmmKept s.pmm s'.pmm ∧ RootOk vm'.archMem)
    (fun _ _ _ h _ => h) ?_ ⟨PmmKept.refl h, ha⟩ (by omega)
  rintro off s' vm' d val ⟨h1, h2⟩ - -
  have hk' : AllMapped cfg s'.pmm := fun p hp => hk p ((h1.ram p).mp hp)
  obtain ⟨h3, h4⟩ := setEntry_kept h1.wf hk' h2 (ipa + off) (3 - d) val
  exact ⟨fun _ => ⟨h1.trans h3, h4⟩, fun _ => ⟨h1.trans h3, h4⟩⟩

/-- what holds of every reachable state, whatever the root pages contain -/
structure RootsInv (cfg : Config) (s : TableSys) : Prop where
  pmm : s.hv.pmm.Wf
  mapped : AllMapped cfg s.hv.pmm
  root : ∀ v, RootOk (s.am v)
  host : ∀ p ∈ s.host, s.hv.pmm.Ram p ∧ s.hv.pmm.nonfree p = true

theorem RootsInv.edit {s : TableSys} (h : RootsInv cfg s) (v : Nat) {hv' : Hv} {vm' : VmMem}
    (he : PmmKept s.hv.pmm hv'.pmm ∧ RootOk vm'.archMem) :
    RootsInv cfg { s with hv := hv', vm := Function.update s.vm v vm' } := by
  obtain ⟨hk, ha⟩ := he
  refine ⟨hk.wf, fun p hp => h.mapped p ((hk.ram p).mp hp), fun w => ?_, fun p hp => ?_⟩
  · by_cases e : w = v
    · rw [e]
      show RootOk (Function.update s.vm v vm' v).archMem
      rw [Function.update_self]
      exact ha
    · show RootOk (Function.update s.vm v vm' w).archMem
      rw [Function.update_of_ne e]
      exact h.root w
  · obtain ⟨h1, h2⟩ := h.host p hp
    exact ⟨(hk.ram p).mpr h1, hk.nonfree p h2⟩

theorem RootsInv.step {s s' : TableSys} (h : RootsInv cfg s) {op : TableOp}
    (hst : tableStep cfg s op = some s') : RootsInv cfg s' := by
  cases op with
  | map v pa ipa len =>
    cases hst
    refine h.edit v ?_
    rw [archMemMap]
    split
    · exact ⟨PmmKept.refl h.pmm, h.root v⟩
    split
    · exact ⟨PmmKept.refl h.pmm, h.root v⟩
    · exact editLoop_kept h.pmm h.mapped (h.root v) (len_le_rounds _)
  | unmap v ipa len =>
    cases hst
    refine h.edit v ?_
    rw [archMemUnmap]
    split
    · exact ⟨PmmKept.refl h.pmm, h.root v⟩
    split
    · exact ⟨PmmKept.refl h.pmm, h.root v⟩
    · exact editLoop_kept h.pmm h.mapped (h.root v) (len_le_rounds _)
  | lock v =>
    simp only [tableStep] at hst
    split at hst
    · cases hst
    · cases hst
      exact ⟨h.pmm, h.mapped, h.root, h.host⟩
  | unlock v =>
    simp only [tableStep] at hst
    split at hst
    · cases hst
      obtain ⟨h1, -, -, -, -, -, h6⟩ := memUnlock_hv cfg s.hv (s.vm v)
      have hk : PmmKept s.hv.pmm (memUnlock cfg s.hv (s.vm v)).1.pmm ∧
          RootOk (memUnlock cfg s.hv (s.vm v)).2.archMem :=
        ⟨by rw [h1]; exact PmmKept.refl h.pmm, by rw [h6]; exact h.root v⟩
      have := h.edit v hk
      exact ⟨this.pmm, this.mapped, this.root, this.host⟩
    · cases hst
  | load v vs =>
    cases hst
    exact ⟨h.pmm, h.mapped, h.root, h.host⟩
  | hostAlloc count =>
    cases hst
    have ht := h.pmm.allocPages count
    refine ⟨ht.wf, fun p hp => h.mapped p ((ht.ram p).mp hp), h.root, fun p hp => ?_⟩
    rcases List.mem_append.mp hp with hp | hp
    · refine ⟨(ht.ram p).mpr (ht.free p hp).1, ?_⟩
      show (pmmAllocPages s.hv.pmm count).1.nonfree p = true
      rw [ht.nonfree, setNonfree]
      simp [hp]
    · obtain ⟨h1, h2⟩ := h.host p hp
      exact ⟨(ht.ram p).mpr h1, ht.kept.nonfree p h2⟩
  | hostFree pgs =>
    simp only [tableStep] at hst
    split at hst
    · rename_i hp
      cases hst
      have hg := h.pmm.free hp.1 fun p hm => h.host p (hp.2 p hm)
      refine ⟨hg.wf, fun p hp => h.mapped p ((hg.ram p).mp hp), h.root, fun p hm => ?_⟩
      rw [List.mem_filter, decide_eq_true_eq] at hm
      obtain ⟨h1, h2⟩ := h.host p hm.1
      refine ⟨(hg.ram p).mpr h1, ?_⟩
      show (pmmFree s.hv.pmm pgs).nonfree p = true
      rw [hg.nonfree, h2]
      simpa using hm.2
    · cases hst
  | hostWrite addr val =>
    simp only [tableStep] at hst
    split at hst
    · cases hst
      exact ⟨h.pmm, h.mapped, h.root, h.host⟩
    · cases hst

theorem rootsInv {s : TableSys} (hr : (tableSys cfg).Reach s) : RootsInv cfg s := by
  refine hr.invariant (fun s h0 => ?_) fun _ _ _ h _ hst => h.step hst
  refine ⟨h0.hv.pmm, h0.hv.kmapped, fun v => .inl ?_, by rw [h0.host]; simp⟩
  rw [TableSys.am, h0.vm v]
  exact ⟨rfl, rfl, rfl⟩

/-- a root of one page is cleared whole -/
theorem reach_rootsClean {s : TableSys} (h : cfg.rootOrder = 0) (hr : (tableSys cfg).Reach s) :
    (tableSys cfg).Run (RootsClean cfg) s := by
  have hc : ∀ s, RootClean cfg s := by
    intro s pg _ j h0 h1
    rw [h] at h1
    omega
  refine hr.mono fun s op _ => ?_
  cases op <;> first | exact fun _ => hc _ | trivial

/-! ## the loop of `ipa_to_pa` -/

theorem blockOffset_eq (ipa : Nat) {l : Nat} (hl : l ≤ 3) :
    blockOffset ipa (3 - l) = ipa % (PAGE_SIZE * 512 ^ l) := by
  rw [blockOffset, show (3 - (3 - l)) * VM_MEM_PTE_SHIFT + PAGE_SIZE_SHIFT = 12 + 9 * l by
    rw [VM_MEM_PTE_SHIFT, PAGE_SIZE_SHIFT]; omega, Nat.one_shiftLeft, Nat.and_two_pow_sub_one_eq_mod,
    Nat.pow_add, pow512]
  rfl

theorem alignDown_eq (x l : Nat) : alignDown x (PAGE_SIZE * 512 ^ l)
    = PAGE_SIZE * (x / PAGE_SIZE / 512 ^ l * 512 ^ l) := by
  rw [alignDown, ← Nat.div_div_eq_div_mul]
  ring

/-- a page, a 2M block, a 1G block -/
theorem pteBlockAddress_eq (pte : Nat) {l : Nat} (hl : l ≤ 2) :
    pteBlockAddress pte (3 - l) = PAGE_SIZE * (outPage pte / 512 ^ l * 512 ^ l) := by
  have h : pteBlockAddress pte (3 - l)
      = alignDown (pte &&& MMU_OA_RANGE_MASK) (PAGE_SIZE * 512 ^ l) := by
    rcases l with _ | _ | _ | l
    · rfl
    · rfl
    · rfl
    · omega
  rw [h, alignDown_eq, oa_page]

/-- what the loop of `ipa_to_pa` makes of a lookup from the table `g` of level `l` -/
def softOut (mem : PhysMem) (ipa l g k : Nat) : Nat :=
  match slot 512 (store mem) 0 l g k with
  | some t => PAGE_SIZE * t + ipa % PAGE_SIZE
  | none =>
    match walk 512 (store mem) l g k with
    | some (m, p) => PAGE_SIZE * p + ipa % (PAGE_SIZE * 512 ^ m)
    | none => 0

theorem softOut_step {mem : PhysMem} {ipa l g k g' : Nat}
    (h : store mem (l + 1) g (digit 512 (l + 1) k) = .table g') :
    softOut mem ipa (l + 1) g k = softOut mem ipa l g' k := by
  rw [softOut, softOut, slot_step (by omega), walk, h]

/-- the loop, from a table of level `l + 1` on; there are no blocks at the architecture's level 0 -/
theorem ipaToPaLoop_eq {mem : PhysMem} {ipa : Nat} : ∀ {l level kva g : Nat} {last : Option Nat},
    level + (l + 1) = 3 → cfg.rootLevel ≤ level → l + 1 ≤ cfg.top →
    kva + 8 * pteIndex cfg ipa level = pteAddr g (digit 512 (l + 1) (cfg.key ipa)) →
    (l + 1 = 3 → isPteBlock (mem (pteAddr g (digit 512 (l + 1) (cfg.key ipa)))) = false) →
    ipaToPaLoop cfg mem ipa (l + 1) level kva last = softOut mem ipa (l + 1) g (cfg.key ipa) := by
  intro l
  induction l with
  | zero =>
    intro level kva g last hlev _ _ hk _
    rw [ipaToPaLoop]
    simp only [hk]
    split
    · rename_i hinv
      have hinv : isPteValid (mem (pteAddr g (digit 512 (0 + 1) (cfg.key ipa)))) = false := by
        rcases hinv with e | e
        · rw [e]
          rfl
        · simpa using e
      have hv := entryView_of_invalid (l := 0 + 1) hinv
      rw [softOut, slot_none (by lia) (fun g' => by rw [store, hv]; simp), walk, store, hv]
    · rename_i hval
      have hval : isPteValid (mem (pteAddr g (digit 512 (0 + 1) (cfg.key ipa)))) = true := by simp_all
      split
      · rename_i hb
        have hv := entryView_valid_block (l := 0 + 1) (.inl rfl) hb
        rw [softOut, slot_none (by lia) (fun g' => by rw [store, hv]; simp), walk, store, hv]
        obtain rfl : level = 3 - 1 := by lia
        rw [pteBlockAddress_eq _ (by decide), blockOffset_eq _ (by decide)]
      · rename_i hb
        have hb : isPteBlock (mem (pteAddr g (digit 512 (0 + 1) (cfg.key ipa)))) = false := by simp_all
        -- the level-2 descriptor is taken for the page
        have hv : store mem (0 + 1) g (digit 512 (0 + 1) (cfg.key ipa)) = .table _ := entryView_valid_table hval hb
        rw [softOut, slot_one hv, ipaToPaLoop]
        simp only [hval, hb, not_true, Bool.false_eq_true, or_self, if_false]
        obtain rfl : level = 3 - 1 := by lia
        rw [show 3 - 1 + 1 = 3 - 0 from rfl, pteBlockAddress_eq _ (by decide),
          blockOffset_eq _ (by decide), Nat.pow_zero, Nat.div_one, Nat.mul_one, Nat.mul_one]
  | succ l ih =>
    intro level kva g last hlev hroot htop hk h0
    rw [ipaToPaLoop]
    simp only [hk]
    split
    · rename_i hinv
      have hinv : isPteValid (mem (pteAddr g (digit 512 (l + 1 + 1) (cfg.key ipa)))) = false := by
        rcases hinv with e | e
        · rw [e]
          rfl
        · simpa using e
      have hv := entryView_of_invalid (l := l + 1 + 1) hinv
      rw [softOut, slot_none (by lia) (fun g' => by rw [store, hv]; simp), walk, store, hv]
    · rename_i hval
      have hval : isPteValid (mem (pteAddr g (digit 512 (l + 1 + 1) (cfg.key ipa)))) = true := by
        simp_all
      split
      · rename_i hb
        have hl : l + 1 + 1 = 2 := by
          have : l + 1 + 1 ≠ 3 := by
            intro e
            rw [h0 e] at hb
            cases hb
          lia
        have hv := entryView_valid_block (.inr hl) hb
        rw [softOut, slot_none (by lia) (fun g' => by rw [store, hv]; simp), walk, store, hv]
        obtain rfl : l = 0 := by lia
        obtain rfl : level = 3 - 2 := by lia
        rw [pteBlockAddress_eq _ (by decide), blockOffset_eq _ (by decide)]
      · rename_i hb
        have hv : store mem (l + 1 + 1) g (digit 512 (l + 1 + 1) (cfg.key ipa)) = .table _ :=
          entryView_valid_table hval (by simp_all)
        rw [softOut_step hv, pteTableAddress_eq]
        refine ih (by lia) (by lia) (by lia) ?_ (by lia)
        rw [pteIndex_below cfg (by lia), show 3 - (level + 1) = l + 1 by lia, ← cfg.digit_key (l := l + 1) (by lia)]
        rfl

/-! ## `ipa_to_pa` -/

/-- the level-3 table the hardware reaches for page `k` -/
def lastTable (cfg : Config) (mem : PhysMem) (vttbr k : Nat) : Option Nat :=
  if vttbr % 2 ^ 48 = 0 then none
  else slot 512 (store mem) 0 (3 - (2 - cfg.info.sl0)) (rootFrame cfg vttbr k) k

section
variable {s : TableSys}

/-- **What `ipa_to_pa` returns**: the level-3 table in place of its entry. -/
theorem ipaToPa_eq (hr : (tableSys cfg).Reach s) (v : Nat) {ipa : Nat} (hi : ipa < 2 ^ 48) :
    ipaToPa cfg s.hv.mem (s.am v) ipa = match lastTable cfg s.hv.mem (s.am v).vttbr (cfg.key ipa) with
      | some t => PAGE_SIZE * t + ipa % PAGE_SIZE
      | none =>
        match leafWalk cfg s.hv.mem (s.am v).vttbr (cfg.key ipa) with
        | some (l, p) => PAGE_SIZE * p + ipa % (PAGE_SIZE * 512 ^ l)
        | none => 0 := by
  rw [ipaToPa, if_neg (by rw [oaOut_of_lt hi]; simp)]
  rcases (rootsInv hr).root v with hn | ⟨r, h0, h1, htab, hkva, hvt⟩
  · rw [hn.kva, hn.vttbr, leafWalk_zero, lastTable, if_pos (Nat.zero_mod _)]
  · have hbase : (s.am v).vttbr % 2 ^ 48 = PAGE_SIZE * r := by
      rw [hvt, Nat.mul_comm, Nat.mul_add_mod]
      apply Nat.mod_eq_of_lt
      rw [PAGE_SIZE]
      lia
    have hne : (s.am v).vttbr % 2 ^ 48 ≠ 0 := by
      rw [hbase, PAGE_SIZE]
      lia
    have hframe : rootFrame cfg (s.am v).vttbr (cfg.key ipa)
        = r + cfg.key ipa / 512 ^ (cfg.top + 1) := by
      rw [rootFrame, hbase, cfg.hw_top, Nat.mul_div_cancel_left _ (by decide : 0 < PAGE_SIZE)]
    have hidx : PAGE_SIZE * r + 8 * pteIndex cfg ipa cfg.rootLevel
        = pteAddr (r + cfg.key ipa / 512 ^ (cfg.top + 1)) (digit 512 cfg.top (cfg.key ipa)) := by
      rw [pteIndex_root, pteAddr, PAGE_SIZE]
      lia
    -- a root at the architecture's level 0 is one page, cleared by `init_st2_root`
    have hlev0 : cfg.top = 3 → isPteBlock (s.hv.mem (pteAddr (r + cfg.key ipa / 512 ^ (cfg.top + 1))
        (digit 512 cfg.top (cfg.key ipa)))) = false := by
      intro e
      have hord : cfg.rootOrder = 0 := by
        rcases cfg.cases with h | h | h | h | h | h <;>
          simp [Config.top, Config.rootLevel, h] at e <;> simp [Config.rootOrder, h]
      obtain ⟨lab, ht⟩ := tableInv (reach_rootsClean hord hr)
      obtain ⟨r', hr'⟩ := ht.tables.rooted (v := v) (by
        show (s.am v).st2Table ≠ 0
        rw [htab, PAGE_SIZE]
        lia)
      have : r' = r := by
        have h2 := hr'.table
        rw [htab] at h2
        exact (Nat.eq_of_mul_eq_mul_left (by decide) h2).symm
      subst this
      have hl := Tables.lab_rooted hr' (cfg.key_lt ipa)
      rw [e] at hl ⊢
      exact ht.tables.level0 _ _ _ hl _ (digit_lt (by decide) _ _)
    have htop := cfg.top_eq
    obtain ⟨l, hl⟩ : ∃ l, cfg.top = l + 1 := ⟨cfg.top - 1, by lia⟩
    rw [hkva, lastTable, leafWalk, if_neg hne, if_neg hne, hframe, cfg.hw_top]
    simp only
    rw [show 3 - cfg.rootLevel = cfg.top from rfl, hl]
    rw [hl] at hidx hlev0
    exact ipaToPaLoop_eq (by rw [cfg.rootLevel_eq]; lia) le_rfl (by lia) hidx hlev0

/-- `ipa_to_pa` and the reference walk agree at `ipa` -/
def WalksAgree (cfg : Config) (s : TableSys) (v ipa : Nat) : Prop :=
  (∀ pa, stage2Walk cfg s.hv.mem (s.am v).vttbr ipa = some pa → ipaToPa cfg s.hv.mem (s.am v) ipa = pa) ∧
    (ipaToPa cfg s.hv.mem (s.am v) ipa = 0 ↔ stage2Walk cfg s.hv.mem (s.am v).vttbr ipa = none)

/-- where the missing level does not show -/
inductive SoftRight (cfg : Config) (s : TableSys) (v ipa : Nat) : Prop
  /-- the lookup ends at an invalid entry above level 3 -/
  | invalid (h : lastTable cfg s.hv.mem (s.am v).vttbr (cfg.key ipa) = none)
      (hn : leafWalk cfg s.hv.mem (s.am v).vttbr (cfg.key ipa) = none)
  /-- the address is in range and in a block, and not the first byte of a block of address 0 -/
  | block (l p : Nat) (h : lastTable cfg s.hv.mem (s.am v).vttbr (cfg.key ipa) = none)
      (hb : leafWalk cfg s.hv.mem (s.am v).vttbr (cfg.key ipa) = some (l, p))
      (hi : ipa < cfg.ipaLimit) (hz : ¬ (p = 0 ∧ ipa % (PAGE_SIZE * 512 ^ l) = 0))
  /-- the address is out of range and its alias is the first byte of a block of address 0 -/
  | aliasZero (l : Nat) (h : lastTable cfg s.hv.mem (s.am v).vttbr (cfg.key ipa) = none)
      (hb : leafWalk cfg s.hv.mem (s.am v).vttbr (cfg.key ipa) = some (l, 0))
      (hi : cfg.ipaLimit ≤ ipa) (hz : ipa % (PAGE_SIZE * 512 ^ l) = 0)
  /-- the page is the level-3 table that maps it -/
  | selfMapped (t : Nat) (h : lastTable cfg s.hv.mem (s.am v).vttbr (cfg.key ipa) = some t)
      (hb : leafWalk cfg s.hv.mem (s.am v).vttbr (cfg.key ipa) = some (0, t))
      (hi : ipa < cfg.ipaLimit) (hz : ¬ (t = 0 ∧ ipa % PAGE_SIZE = 0))
  /-- the level-3 table is page 0, and the address translates to nothing -/
  | tableZero (h : lastTable cfg s.hv.mem (s.am v).vttbr (cfg.key ipa) = some 0)
      (hz : ipa % PAGE_SIZE = 0)
      (hn : cfg.ipaLimit ≤ ipa ∨ leafWalk cfg s.hv.mem (s.am v).vttbr (cfg.key ipa) = none)

/-- below a level-3 table there are only pages -/
theorem lastTable_leaf {mem : PhysMem} {vttbr k t l p : Nat} (h : lastTable cfg mem vttbr k = some t)
    (hl : leafWalk cfg mem vttbr k = some (l, p)) : l = 0 := by
  rw [lastTable] at h
  split at h
  · cases h
  · rename_i hne
    rw [leafWalk, if_neg hne, walk_of_slot h, walk] at hl
    split at hl <;> cases hl
    rfl

theorem stage2Walk_limit {mem : PhysMem} {vttbr ipa : Nat} (h : cfg.ipaLimit ≤ ipa) :
    stage2Walk cfg mem vttbr ipa = none := by
  rw [stage2Walk, if_pos h]

theorem stage2Walk_key {mem : PhysMem} {vttbr ipa : Nat} (h : ipa < cfg.ipaLimit) :
    stage2Walk cfg mem vttbr ipa = (leafWalk cfg mem vttbr (cfg.key ipa)).map fun r =>
      PAGE_SIZE * r.2 + ipa % (PAGE_SIZE * 512 ^ r.1) := by
  rw [stage2Walk, if_neg (by omega), cfg.key_of_lt h]

/-- **When `ipa_to_pa` is right**: in every reachable state, for every address. -/
theorem ipaToPa_agrees_iff (hr : (tableSys cfg).Reach s) (v ipa : Nat) :
    WalksAgree cfg s v ipa ↔ ipa < 2 ^ 48 ∧ SoftRight cfg s v ipa := by
  have hP : PAGE_SIZE = 4096 := rfl
  by_cases hi : ipa < 2 ^ 48
  · rw [and_iff_right hi, WalksAgree, ipaToPa_eq hr v hi]
    by_cases hlim : ipa < cfg.ipaLimit
    · rw [stage2Walk_key hlim]
      cases ht : lastTable cfg s.hv.mem (s.am v).vttbr (cfg.key ipa) with
      | none =>
        cases hl : leafWalk cfg s.hv.mem (s.am v).vttbr (cfg.key ipa) with
        | none => simpa using SoftRight.invalid ht hl
        | some x =>
          obtain ⟨l, p⟩ := x
          constructor
          · intro h
            refine .block l p ht hl hlim ?_
            rintro ⟨rfl, hz⟩
            simpa [hz] using h.2
          · intro h
            cases h with
            | block l' p' _ hb _ hz =>
              rw [hl] at hb
              cases hb
              simp only [Option.map_some, Option.some.injEq, reduceCtorEq, iff_false]
              exact ⟨fun pa h => h, fun h => hz (by rw [hP] at *; lia)⟩
            | _ => simp_all <;> lia
      | some t =>
        cases hl : leafWalk cfg s.hv.mem (s.am v).vttbr (cfg.key ipa) with
        | none =>
          constructor
          · intro h
            have h0 : PAGE_SIZE * t + ipa % PAGE_SIZE = 0 := h.2.mpr rfl
            obtain rfl : t = 0 := by rw [hP] at h0; lia
            exact .tableZero ht (by lia) (.inr hl)
          · intro h
            cases h with
            | tableZero h0 hz _ =>
              rw [ht] at h0
              cases h0
              simpa using hz
            | _ => simp_all
        | some x =>
          obtain ⟨l, p⟩ := x
          obtain rfl := lastTable_leaf ht hl
          rw [Option.map_some, Nat.pow_zero, Nat.mul_one]
          constructor
          · intro h
            have hpt : PAGE_SIZE * t + ipa % PAGE_SIZE = PAGE_SIZE * p + ipa % PAGE_SIZE := h.1 _ rfl
            obtain rfl : t = p := by rw [hP] at hpt; lia
            refine .selfMapped t ht hl hlim ?_
            rintro ⟨rfl, hz⟩
            simpa [hz] using h.2
          · intro h
            cases h with
            | selfMapped t' h0 hb _ hz =>
              rw [ht] at h0
              cases h0
              rw [hl] at hb
              cases hb
              simp only [Option.some.injEq, reduceCtorEq, iff_false]
              exact ⟨fun pa h => h, fun h => hz (by rw [hP] at *; lia)⟩
            | tableZero _ _ hn =>
              rcases hn with hn | hn
              · lia
              · rw [hl] at hn
                cases hn
            | _ => simp_all
    · have hlim := Nat.le_of_not_lt hlim
      rw [stage2Walk_limit hlim]
      simp only [reduceCtorEq, false_implies, implies_true, true_and, iff_true]
      cases ht : lastTable cfg s.hv.mem (s.am v).vttbr (cfg.key ipa) with
      | none =>
        cases hl : leafWalk cfg s.hv.mem (s.am v).vttbr (cfg.key ipa) with
        | none => simpa using SoftRight.invalid ht hl
        | some x =>
          obtain ⟨l, p⟩ := x
          constructor
          · intro h
            obtain rfl : p = 0 := by simp only [hP] at h; lia
            exact .aliasZero l ht hl hlim (by simp only at h; lia)
          · intro h
            cases h with
            | aliasZero l' _ hb _ hz =>
              rw [hl] at hb
              cases hb
              simpa using hz
            | block _ _ _ _ hi' _ => lia
            | _ => simp_all
      | some t =>
        constructor
        · intro h
          obtain rfl : t = 0 := by simp only [hP] at h; lia
          exact .tableZero ht (by simp only at h; lia) (.inl hlim)
        · intro h
          cases h with
          | tableZero h0 hz _ =>
            rw [ht] at h0
            cases h0
            simpa using hz
          | selfMapped _ _ _ hi' _ => lia
          | _ => simp_all
  · -- outside 48 bits the error code comes back as an address
    rw [WalksAgree, stage2Walk_limit (Nat.le_trans cfg.ipaLimit_le_oa (Nat.le_of_not_lt hi))]
    have ho : oaOut ipa ≠ 0 := by
      rw [oaOut, Nat.shiftRight_eq_div_pow]
      have := Nat.div_pos (Nat.le_of_not_lt hi) (by decide : 0 < 2 ^ 48)
      lia
    rw [ipaToPa, if_pos ho]
    refine iff_of_false ?_ fun h => hi h.1
    simp [ERR_INVALID_ARGS]

end

/-- the theorem after a 2M block was mapped at 0 -/
theorem ipaToPa_agrees_block :
    WalksAgree (smallConfig ⟨20, 2, 0, 0⟩ (by decide))
        { smallSys fun _ => 0 with
          hv := (archMemMap (smallConfig ⟨20, 2, 0, 0⟩ (by decide)) (smallHv fun _ => 0) VmMem.boot
            0x80000000 0 0x200000).1
          vm := Function.update (fun _ => VmMem.boot) 0 (archMemMap
            (smallConfig ⟨20, 2, 0, 0⟩ (by decide)) (smallHv fun _ => 0) VmMem.boot 0x80000000 0
            0x200000).2.1 } 0 0x1234 :=
  (ipaToPa_agrees_iff (.step (a := .map 0 0x80000000 0 0x200000) (.init (smallSys_boot _ _ fun _ => 0))
    trivial rfl) 0 0x1234).mpr ⟨by decide, .block 1 0x80000 (by decide) (by decide)
      (by decide) (by decide)⟩

/-- **A 4K page.**  After page 0 is mapped to `0x50000000`, `ipa_to_pa` returns the level-3 table's page. -/
theorem ipaToPa_agrees_fails : ¬ ∀ (cfg : Config) (s : TableSys), (tableSys cfg).Reach s →
    ∀ v ipa, ipa < 2 ^ 64 → WalksAgree cfg s v ipa := by
  intro h
  have h0 := h (smallConfig ⟨20, 2, 0, 0⟩ (by decide)) _
    (.step (a := .map 0 0x50000000 0 0x1000) (.init (smallSys_boot _ _ fun _ => 0)) trivial rfl) 0 0
    (by decide)
  have h1 := h0.1 0x50000000
  revert h1
  decide

end LkHv
