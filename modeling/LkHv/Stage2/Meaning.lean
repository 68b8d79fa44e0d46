import LkHv.Stage2.System

/-!
# The meaning of `arch_mem_map` and `arch_mem_unmap`

* `MapMeaning`, `UnmapMeaning`   the reference walk after the call, address by address;
* `pagePart`                     the bytes at the start of a range that are handled with 4K pages;
* `NoBlock`                      no block covers any of them;
* `archMem_meaning`              in runs whose roots are clean the two functions mean what they should.
-/

namespace LkHv
open Radix

variable {cfg : Config}

/-- a page-aligned range inside the configured IPA size, and the physical one inside 48 bits -/
structure InRange (cfg : Config) (pa ipa len : Nat) : Prop where
  paPage : PAGE_SIZE ∣ pa
  ipaPage : PAGE_SIZE ∣ ipa
  lenPage : PAGE_SIZE ∣ len
  pos : PAGE_SIZE ≤ len
  oa : pa + len ≤ 2 ^ 48
  limit : ipa + len ≤ cfg.ipaLimit

/-- after `arch_mem_map` the range translates to `pa` on, and every other address as before -/
def MapMeaning (cfg : Config) (s : TableSys) (v pa ipa len : Nat) : Prop :=
  ∀ w x, stage2Walk cfg (archMemMap cfg s.hv (s.vm v) pa ipa len).1.mem
      (setAm s.am v (archMemMap cfg s.hv (s.vm v) pa ipa len).2.1 w).vttbr x
    = if w = v ∧ ipa ≤ x ∧ x < ipa + len then some (pa + (x - ipa))
      else stage2Walk cfg s.hv.mem (s.am w).vttbr x

/-- after `arch_mem_unmap` the range faults, and every other address translates as before -/
def UnmapMeaning (cfg : Config) (s : TableSys) (v ipa len : Nat) : Prop :=
  ∀ w x, stage2Walk cfg (archMemUnmap cfg s.hv (s.vm v) ipa len).1.mem
      (setAm s.am v (archMemUnmap cfg s.hv (s.vm v) ipa len).2.1 w).vttbr x
    = if w = v ∧ ipa ≤ x ∧ x < ipa + len then none
      else stage2Walk cfg s.hv.mem (s.am w).vttbr x

/-- the bytes a loop handles with 4K pages: all before the point where `pa`, `ipa` and the rest of `len` are
2M-aligned together -/
def pagePart (pa ipa len : Nat) : Nat :=
  if pa % VM_MEM_BLOCK_2M = ipa % VM_MEM_BLOCK_2M ∧ (ipa + len) % VM_MEM_BLOCK_2M = 0 then
    len % VM_MEM_BLOCK_2M
  else len

/-- no block of `v` covers a page of the first `n` bytes at `ipa` -/
def NoBlock (cfg : Config) (s : TableSys) (v ipa n : Nat) : Prop :=
  ∀ o, PAGE_SIZE * o < n → ∀ l p, leafWalk cfg s.hv.mem (s.am v).vttbr (ipa / PAGE_SIZE + o) = some (l, p) → l = 0

/-- no block of `v` covers some pages of the first `n` bytes at `ipa` and others outside -/
def NoPartBlock (cfg : Config) (s : TableSys) (v ipa n : Nat) : Prop :=
  ∀ o, PAGE_SIZE * o < n → ∀ l p, leafWalk cfg s.hv.mem (s.am v).vttbr (ipa / PAGE_SIZE + o) = some (l, p) → 0 < l →
    ∀ x, x / 512 ^ l = (ipa / PAGE_SIZE + o) / 512 ^ l → ∃ o', PAGE_SIZE * o' < n ∧ x = ipa / PAGE_SIZE + o'

/-! ## the loop goes to the end -/

theorem pagePart_dvd (pa ipa : Nat) {len : Nat} (hl : PAGE_SIZE ∣ len) : PAGE_SIZE ∣ pagePart pa ipa len := by
  rw [pagePart]
  split
  · exact (Nat.dvd_mod_iff ⟨512, by decide⟩).mpr hl
  · exact hl

/-- at the head of the loop, either the pages are not done yet or a whole number of blocks is -/
theorem heads_pagePart (pa ipa : Nat) {len : Nat} (hl : PAGE_SIZE ∣ len) :
    Heads len (fun off => blockStep (pa + off) (ipa + off) (len - off)) fun off =>
      off ≤ pagePart pa ipa len ∨ VM_MEM_BLOCK_2M ∣ off - pagePart pa ipa len := by
  have hd := pagePart_dvd pa ipa hl
  refine ⟨.inl (Nat.zero_le _), fun m hm hR hb => .inr ?_, fun m hm hR hb => .inl ?_⟩
  · obtain ⟨h1, h2, h3⟩ := (blockStep_iff _ _ _).mp hb
    have hP : pagePart pa ipa len = len % VM_MEM_BLOCK_2M := by
      rw [pagePart, if_pos]
      simp only [VM_MEM_BLOCK_2M] at *
      omega
    rw [hP] at hR ⊢
    simp only [VM_MEM_BLOCK_2M] at *
    omega
  · have hb : ¬ blockStep (pa + PAGE_SIZE * m) (ipa + PAGE_SIZE * m) (len - PAGE_SIZE * m) = true := by
      simp [hb]
    rw [blockStep_iff] at hb
    have hlt : PAGE_SIZE * m < pagePart pa ipa len := by
      by_contra hge
      rw [pagePart] at hR hge
      split at hge
      · rename_i hc
        rw [if_pos hc] at hR
        apply hb
        simp only [VM_MEM_BLOCK_2M] at *
        omega
      · exact hge hm
    obtain ⟨c, hc⟩ := hd
    rw [hc] at hlt ⊢
    have := Nat.lt_of_mul_lt_mul_left hlt
    calc PAGE_SIZE * m + PAGE_SIZE = PAGE_SIZE * (m + 1) := by rw [Nat.mul_succ]
      _ ≤ PAGE_SIZE * c := Nat.mul_le_mul_left _ this

section
variable {V : Type} [DecidableEq V] {s s' : Hv} {am : V → ArchVmMem} {lab lab' : Nat → Option (Label V)}
  {v : V} {vm vm' : VmMem} {pa ipa len m : Nat} {block : Nat → Bool} {tgt : Nat → Option Nat}

theorem page_of_limit {o : Nat} (h : ipa + len ≤ cfg.ipaLimit) (ho : PAGE_SIZE * o < len) :
    cfg.page ipa o = ipa / PAGE_SIZE + o := by
  apply Nat.mod_eq_of_lt
  have := Nat.le_trans h cfg.ipaLimit_le
  simp only [PAGE_SIZE] at *
  lia

omit [DecidableEq V] in
/-- a loop that does not stop at a refused page does not stop at all, since no block is in its way -/
theorem not_stopped (hlim : ipa + len ≤ cfg.ipaLimit) (hsm : SmallLeaves cfg s am)
    (hnb : ∀ o, PAGE_SIZE * o < pagePart pa ipa len → ∀ l p,
      leafWalk cfg s.mem (am v).vttbr (ipa / PAGE_SIZE + o) = some (l, p) → l = 0)
    (href : s'.pmm.refused = s.pmm.refused) (hm : PAGE_SIZE * m < len) (hR : PAGE_SIZE * m ≤ pagePart pa ipa len ∨
      VM_MEM_BLOCK_2M ∣ PAGE_SIZE * m - pagePart pa ipa len) : ¬ Stopped cfg s s' (am v) ipa len
      (fun off => blockStep (pa + off) (ipa + off) (len - off)) m := by
  rintro ⟨-, hr | ⟨-, l, p, hl, hlt⟩⟩
  · omega
  have hsmall := hsm v _ (cfg.page_lt ipa m) l p hl
  split at hlt
  · omega
  · rename_i hb
    rw [page_of_limit hlim hm] at hl
    have hlt' : PAGE_SIZE * m < pagePart pa ipa len := by
      by_contra hge
      rw [blockStep_iff] at hb
      rw [pagePart] at hR hge
      split at hge
      · rename_i hc
        rw [if_pos hc] at hR
        apply hb
        simp only [VM_MEM_BLOCK_2M] at *
        omega
      · exact hge hm
    rw [hnb m hlt' l p hl] at hlt
    omega

/-- a finished loop, address by address -/
theorem Upto.stage2Walk {lab' : Nat → Option (Label V)}
    (hu : Upto cfg s s' am v vm vm' ipa len block tgt lab lab' m) (hm : PAGE_SIZE * m = len)
    (hi : PAGE_SIZE ∣ ipa) (hlim : ipa + len ≤ cfg.ipaLimit) (w : V) (x : Nat) :
    stage2Walk cfg s'.mem (setAm am v vm' w).vttbr x = if w = v ∧ ipa ≤ x ∧ x < ipa + len then
          (tgt ((x - ipa) / PAGE_SIZE)).map fun p => PAGE_SIZE * p + x % PAGE_SIZE
        else LkHv.stage2Walk cfg s.mem (am w).vttbr x := by
  obtain ⟨c, rfl⟩ := hi
  subst hm
  have hP : PAGE_SIZE = 4096 := rfl
  have hdiv : PAGE_SIZE * c / PAGE_SIZE = c := Nat.mul_div_cancel_left _ (by decide)
  by_cases hx : cfg.ipaLimit ≤ x
  · rw [stage2Walk_eq, if_pos hx, if_neg (by omega), stage2Walk_eq, if_pos hx]
  rw [stage2Walk_eq, if_neg hx]
  have hspan : x / PAGE_SIZE < cfg.span := by
    have := cfg.ipaLimit_le
    rw [hP] at *
    omega
  by_cases hin : w = v ∧ PAGE_SIZE * c ≤ x ∧ x < PAGE_SIZE * c + PAGE_SIZE * m
  · rw [if_pos hin]
    obtain ⟨rfl, h1, h2⟩ := hin
    have ho : (x - PAGE_SIZE * c) / PAGE_SIZE < m := by rw [hP] at *; omega
    have hpg : cfg.page (PAGE_SIZE * c) ((x - PAGE_SIZE * c) / PAGE_SIZE) = x / PAGE_SIZE := by
      rw [page_of_limit hlim (Nat.mul_lt_mul_of_pos_left ho (by decide)), hdiv, hP]
      rw [hP] at h1
      omega
    have hd := hu.done _ ho
    rw [hpg] at hd
    rw [setAm, Function.update_self, hd]
  · rw [if_neg hin, stage2Walk_eq, if_neg hx, pageWalk, pageWalk, hu.frame w _ hspan]
    rintro rfl o ho e
    rw [page_of_limit hlim (Nat.mul_lt_mul_of_pos_left ho (by decide)), hdiv] at e
    refine hin ⟨rfl, ?_⟩
    rw [hP] at e ⊢
    omega

end

/-! ## the two functions -/

theorem isPageAlign_true (x : Nat) : isPageAlign x = true := by
  simp [isPageAlign, PAGE_SIZE]

theorem oaOut_of_lt {x : Nat} (h : x < 2 ^ 48) : oaOut x = 0 := by
  rw [oaOut, Nat.shiftRight_eq_div_pow, Nat.div_eq_of_lt h]

theorem archMemMap_loop {s : Hv} {vm : VmMem} {pa ipa len : Nat} (hpa : pa < 2 ^ 48)
    (hipa : ipa < 2 ^ 48) (hlen : PAGE_SIZE ≤ len) :
    archMemMap cfg s vm pa ipa len = archMemMapLoop cfg s vm pa ipa len := by
  rw [archMemMap, if_neg (by rw [oaOut_of_lt hpa, oaOut_of_lt hipa]; simp), if_neg]
  · rfl
  · simp only [isPageAlign_true]
    simp only [PAGE_SIZE] at *
    simp
    omega

theorem archMemUnmap_loop {s : Hv} {vm : VmMem} {ipa len : Nat} (hipa : ipa < 2 ^ 48) (hlen : PAGE_SIZE ≤ len) :
    archMemUnmap cfg s vm ipa len = archMemUnmapLoop cfg s vm ipa len := by
  rw [archMemUnmap, if_neg (by rw [oaOut_of_lt hipa]; simp), if_neg]
  · rfl
  · simp only [isPageAlign_true]
    simp only [PAGE_SIZE] at *
    simp
    omega

theorem InRange.lt {pa ipa len : Nat} (h : InRange cfg pa ipa len) :
    pa < 2 ^ 48 ∧ ipa < 2 ^ 48 ∧ len ≤ PAGE_SIZE * cfg.span := by
  have h1 := h.pos
  have h2 := h.oa
  have h3 := h.limit
  have h4 := cfg.ipaLimit_le_oa
  have h5 := cfg.ipaLimit_le
  simp only [PAGE_SIZE] at *
  lia

/-- **The meaning of the two functions.**  In a run whose roots are clean, a call that gets its pages and meets
no block in the part it handles with 4K pages maps, or unmaps, its range and nothing else. -/
theorem archMem_meaning {s : TableSys} (hr : (tableSys cfg).Run (RootsClean cfg) s) (v : Nat)
    {pa ipa len : Nat} (h : InRange cfg pa ipa len)
    (hclean : (s.vm v).archMem.st2Table = 0 → RootClean cfg s.hv) :
    ((archMemMap cfg s.hv (s.vm v) pa ipa len).1.pmm.refused = s.hv.pmm.refused →
      NoBlock cfg s v ipa (pagePart pa ipa len) → MapMeaning cfg s v pa ipa len) ∧
    ((archMemUnmap cfg s.hv (s.vm v) ipa len).1.pmm.refused = s.hv.pmm.refused →
      NoBlock cfg s v ipa (pagePart ipa ipa len) → UnmapMeaning cfg s v ipa len) := by
  obtain ⟨lab, hi⟩ := tableInv hr
  obtain ⟨hpa, hipa, hspan⟩ := h.lt
  constructor
  · rw [MapMeaning, archMemMap_loop hpa hipa h.pos]
    intro href hnb w x
    obtain ⟨lab', m, hu, hend⟩ := editLoop_spec ERR_NO_MEMORY (v := v)
      (mapPlan cfg h.lenPage hspan h.oa) (heads_pagePart pa ipa h.lenPage) hi.tables
      rfl hclean (len_le_rounds len)
    rcases hend with ⟨-, hm, -⟩ | ⟨-, hm, hR, hstop⟩
    · refine (hu.stage2Walk hm h.ipaPage h.limit w x).trans ?_
      split
      · rename_i hx
        obtain ⟨c, rfl⟩ := h.ipaPage
        obtain ⟨e, rfl⟩ := h.paPage
        rw [Option.map_some, Nat.mul_div_cancel_left _ (by decide : 0 < PAGE_SIZE)]
        simp only [PAGE_SIZE] at *
        congr 1
        omega
      · rfl
    · exact absurd hstop (not_stopped h.limit hi.small hnb href hm hR)
  · rw [UnmapMeaning, archMemUnmap_loop hipa h.pos]
    intro href hnb w x
    obtain ⟨lab', m, hu, hend⟩ := editLoop_spec ERR_NOT_FOUND (v := v)
      (unmapPlan cfg h.lenPage hspan) (heads_pagePart ipa ipa h.lenPage) hi.tables
      rfl hclean (len_le_rounds len)
    rcases hend with ⟨-, hm, -⟩ | ⟨-, hm, hR, hstop⟩
    · exact hu.stage2Walk hm h.ipaPage h.limit w x
    · exact absurd hstop (not_stopped h.limit hi.small hnb href hm hR)

/-- the theorem at a first call on a CPU with a root of one page -/
theorem archMem_meaning_first :
    MapMeaning (smallConfig ⟨20, 2, 0, 0⟩ (by decide)) (smallSys fun _ => 0) 0 0x50000000 0x1000 0x3000 :=
  (archMem_meaning (.init (smallSys_boot _ _ _)) 0
    ⟨by decide, by decide, by decide, by decide, by decide, by decide⟩
    (fun _ _ _ j h0 h1 => absurd h1 (by
      have : 2 ^ (smallConfig ⟨20, 2, 0, 0⟩ (by decide)).rootOrder = 1 := rfl
      omega))).1 (by decide)
    (fun o _ l p h => by
      rw [show (TableSys.am (smallSys fun _ => 0) 0).vttbr = 0 from rfl, leafWalk_zero] at h
      cases h)

/-- **A root of two pages.**  The second one is not cleared: a descriptor it holds from an earlier use, here a
block of address 0, translates addresses that no call mapped. -/
theorem archMem_meaning_fails : ¬ ∀ (cfg : Config) (s : TableSys), (tableSys cfg).Reach s →
    ∀ v pa ipa len, InRange cfg pa ipa len →
      (archMemMap cfg s.hv (s.vm v) pa ipa len).1.pmm.refused = s.hv.pmm.refused →
      NoPartBlock cfg s v ipa (pagePart pa ipa len) → MapMeaning cfg s v pa ipa len := by
  intro h
  have hmem : ∀ w x, _ := h (smallConfig ⟨24, 1, 1, 1⟩ (by decide))
    (smallSys fun a => if a = 0x40001000 then 0x7D1 else 0) (.init (smallSys_boot _ _ _)) 0 0x50000000 0
    0x1000 ⟨by decide, by decide, by decide, by decide, by decide, by decide⟩ (by decide)
    (fun o _ l p h => by
      rw [show (TableSys.am (smallSys fun a => if a = 0x40001000 then 0x7D1 else 0) 0).vttbr = 0 from rfl,
        leafWalk_zero] at h
      cases h)
  have h39 := hmem 0 (2 ^ 39)
  rw [setAm, Function.update_self] at h39
  revert h39
  decide

end LkHv
