import LkHv.Stage2.Args

/-!
# Addresses and leaf entries

* `Unaliased`            two addresses have entries of their own, and those out of range are refused;
* `archMem_unaliased`    so it is for the addresses of the configured size;
* `archMem_unaliased_fails`   an address above it has the entry of another.
-/

namespace LkHv
open Radix

/-- `arch_mem_map` refuses the address, whatever else it is given -/
def Refused (cfg : Config) (s : Hv) (vm : VmMem) (ipa : Nat) : Prop :=
  ∀ pa len, archMemMap cfg s vm pa ipa len = (s, vm, ERR_INVALID_ARGS)

/-- **No aliasing** between two addresses. -/
structure Unaliased (cfg : Config) (s : TableSys) (v ipa ipa' : Nat) : Prop where
  /-- out of the configured input size -/
  range : cfg.ipaLimit ≤ ipa → Refused cfg s.hv (s.vm v) ipa
  range' : cfg.ipaLimit ≤ ipa' → Refused cfg s.hv (s.vm v) ipa'
  /-- `pte_get` gives an entry for the one and then for the other, pages or blocks -/
  entry : ¬ Refused cfg s.hv (s.vm v) ipa → ¬ Refused cfg s.hv (s.vm v) ipa' →
    ∀ d ≤ 1, PAGE_SIZE * 512 ^ d ∣ ipa → PAGE_SIZE * 512 ^ d ∣ ipa' → ∀ e e',
      (pteGet cfg s.hv (s.am v) ipa (3 - d)).2.2 = some e →
      (pteGet cfg (pteGet cfg s.hv (s.am v) ipa (3 - d)).1 (pteGet cfg s.hv (s.am v) ipa (3 - d)).2.1 ipa'
        (3 - d)).2.2 = some e' → e ≠ e'
  /-- a page is mapped at the one, and the other translates as before, in every VM -/
  translation : ∀ pa w x, x / PAGE_SIZE = ipa' / PAGE_SIZE →
    stage2Walk cfg (archMemMap cfg s.hv (s.vm v) pa ipa PAGE_SIZE).1.mem
        (setAm s.am v (archMemMap cfg s.hv (s.vm v) pa ipa PAGE_SIZE).2.1 w).vttbr x =
      stage2Walk cfg s.hv.mem (s.am w).vttbr x

section
variable {cfg : Config} {s : Hv} {am : Nat → ArchVmMem} {lab : Nat → Option (Label Nat)} {v : Nat} {vm : VmMem}

/-- what is translated is in the configured size -/
theorem stage2Walk_out {mem : PhysMem} {vttbr x : Nat} (h : cfg.ipaLimit ≤ x) : stage2Walk cfg mem vttbr x = none := by
  rw [stage2Walk, if_pos h]

theorem refused_of_le {ipa : Nat} (h : 2 ^ 48 ≤ ipa) : Refused cfg s vm ipa := by
  intro pa len
  apply archMemMap_rejects
  rintro ⟨-, -, hlt⟩
  omega

/-- an address below 48 bits is taken -/
theorem not_refused {ipa : Nat} (h : ipa < 2 ^ 48) : ¬ Refused cfg s vm ipa := by
  intro href
  obtain ⟨n, left, -, hret, -⟩ := mapLoop_eq cfg s vm 0 ipa PAGE_SIZE
  have hcall := href 0 PAGE_SIZE
  rw [archMemMap_loop (by decide) h (le_refl _)] at hcall
  rw [hcall] at hret
  rcases hret with hret | hret
  · exact absurd hret (show ¬ ERR_INVALID_ARGS = 0 by decide)
  · exact absurd hret (show ¬ ERR_INVALID_ARGS = ERR_NO_MEMORY by decide)

/-- a range of one page is one round at the last level -/
theorem archMemMap_page {pa ipa : Nat} (hpa : pa < 2 ^ 48) (hipa : ipa < 2 ^ 48) :
    (archMemMap cfg s vm pa ipa PAGE_SIZE).1 = (setEntry cfg s vm ipa 3 (MMU_PTE_TABLE ||| pa)).1 ∧
      (archMemMap cfg s vm pa ipa PAGE_SIZE).2.1 = (setEntry cfg s vm ipa 3 (MMU_PTE_TABLE ||| pa)).2.1 := by
  have hblock : ¬ blockStep (pa + 0) (ipa + 0) (PAGE_SIZE - 0) = true := by
    rw [blockStep_iff]
    rintro ⟨-, -, hd⟩
    exact absurd hd (by decide)
  rw [archMemMap_loop hpa hipa (le_refl _), archMemMapLoop]
  show (editLoop _ _ _ _ _ _ _ (1 + 1) _ _ _).1 = _ ∧ (editLoop _ _ _ _ _ _ _ (1 + 1) _ _ _).2.1 = _
  rw [editLoop, if_neg (by decide), if_neg hblock]
  dsimp only
  split
  · rw [editLoop, if_pos (by decide)]
    exact ⟨rfl, rfl⟩
  · exact ⟨rfl, rfl⟩

/-- **Entries.**  Two pages, or two blocks, that have the same entry are one. -/
theorem pteGet_inj (h : Tables cfg s am lab) (hc : (am v).st2Table = 0 → RootClean cfg s) {ipa ipa' d : Nat}
    (hd : d ≤ 1) {e : Nat} (he : (pteGet cfg s (am v) ipa (3 - d)).2.2 = some e)
    (he' : (pteGet cfg (pteGet cfg s (am v) ipa (3 - d)).1 (pteGet cfg s (am v) ipa (3 - d)).2.1 ipa' (3 - d)).2.2 =
      some e) : cfg.key ipa / 512 ^ d = cfg.key ipa' / 512 ^ d := by
  obtain ⟨lab1, h1, -, -, -, hclean, hgot⟩ := pteGet_spec (v := v) h hc ipa hd
  rcases hgot with ⟨g, root, hr, hg, -⟩ | ⟨hr, -⟩
  swap
  · rw [hr] at he
    cases he
  obtain ⟨am1, ham1⟩ : ∃ am1, am1 = Function.update am v (pteGet cfg s (am v) ipa (3 - d)).2.1 := ⟨_, rfl⟩
  have hv : am1 v = (pteGet cfg s (am v) ipa (3 - d)).2.1 := by
    rw [ham1, Function.update_self]
  rw [← ham1] at h1
  rw [← hv] at he' hclean
  obtain ⟨lab2, -, hext, -, -, -, hgot'⟩ := pteGet_spec (v := v) h1 hclean ipa' hd
  rcases hgot' with ⟨g', root', hr', hg', -⟩ | ⟨hr', -⟩
  swap
  · rw [hr'] at he'
    cases he'
  -- one frame and one index: the label of the frame and the index give the key
  have haddr : pteAddr g (digit 512 d (cfg.key ipa)) = pteAddr g' (digit 512 d (cfg.key ipa')) := by
    rw [hr] at he
    rw [hr'] at he'
    exact (Option.some.inj he).trans (Option.some.inj he').symm
  obtain ⟨hframe, hdigit⟩ := pteAddr_inj (digit_lt (by decide) _ _) (digit_lt (by decide) _ _) haddr
  have hlab := hext.keep g _ hg
  rw [hframe, hg'] at hlab
  have hpfx : cfg.key ipa' / 512 ^ (d + 1) = cfg.key ipa / 512 ^ (d + 1) := congrArg Label.pfx (Option.some.inj hlab)
  rw [div_eq_pfx d (cfg.key ipa), div_eq_pfx d (cfg.key ipa'), hdigit, hpfx]

/-- **Translations.**  A page that is mapped is the only one to translate in a new way. -/
theorem archMemMap_page_frame (h : Tables cfg s am lab) (ha : vm.archMem = am v)
    (hc : (am v).st2Table = 0 → RootClean cfg s) {ipa : Nat} (hipa : ipa < cfg.ipaLimit) (pa w : Nat) {x : Nat}
    (hx : x / PAGE_SIZE ≠ ipa / PAGE_SIZE) : stage2Walk cfg (archMemMap cfg s vm pa ipa PAGE_SIZE).1.mem
        (setAm am v (archMemMap cfg s vm pa ipa PAGE_SIZE).2.1 w).vttbr x = stage2Walk cfg s.mem (am w).vttbr x := by
  by_cases hlim : cfg.ipaLimit ≤ x
  · rw [stage2Walk_out hlim, stage2Walk_out hlim]
  have hspan : x / PAGE_SIZE < cfg.span := Nat.div_lt_of_lt_mul (Nat.lt_of_lt_of_le (by omega) cfg.ipaLimit_le)
  have hwalk : leafWalk cfg (archMemMap cfg s vm pa ipa PAGE_SIZE).1.mem
      (setAm am v (archMemMap cfg s vm pa ipa PAGE_SIZE).2.1 w).vttbr (x / PAGE_SIZE) =
        leafWalk cfg s.mem (am w).vttbr (x / PAGE_SIZE) := by
    by_cases hpa : pa < 2 ^ 48
    · have hoa := cfg.ipaLimit_le_oa
      obtain ⟨h1, h2⟩ := @archMemMap_page cfg s vm _ _ hpa (show ipa < 2 ^ 48 by omega)
      rw [h1, h2]
      obtain ⟨-, -, -, -, hround⟩ := setEntry_spec (v := v) vm h ha hc ipa (Nat.zero_le 1) (entryVal_page _)
      rcases hround with ⟨-, hok⟩ | ⟨-, hfail⟩
      · rw [hok.edited w _ hspan, if_neg]
        rintro ⟨-, hk⟩
        rw [Nat.pow_zero, Nat.div_one, Nat.div_one, cfg.key_of_lt hipa] at hk
        exact hx hk
      · rw [hfail.same w _ hspan]
    · rw [archMemMap_rejects fun hin => hpa hin.2.1]
      show leafWalk cfg s.mem (setAm am v vm w).vttbr _ = _
      rw [setAm, ha, Function.update_eq_self]
  rw [stage2Walk_eq, stage2Walk_eq, pageWalk, pageWalk, hwalk]

end

/-- **Addresses.**  In a run whose roots are clean, two page-aligned addresses are kept apart if and only if each of
them is in the configured size or does not even have 48 bits. -/
theorem archMem_unaliased {cfg : Config} {s : TableSys} (hr : (tableSys cfg).Run (RootsClean cfg) s) (v : Nat)
    (hclean : (s.vm v).archMem.st2Table = 0 → RootClean cfg s.hv) {ipa ipa' : Nat} (hp : PAGE_SIZE ∣ ipa)
    (hp' : PAGE_SIZE ∣ ipa') (hne : ipa ≠ ipa') :
    Unaliased cfg s v ipa ipa' ↔ (ipa < cfg.ipaLimit ∨ 2 ^ 48 ≤ ipa) ∧ (ipa' < cfg.ipaLimit ∨ 2 ^ 48 ≤ ipa') := by
  obtain ⟨lab, hi⟩ := tableInv hr
  constructor
  · intro h
    have hside : ∀ i, (cfg.ipaLimit ≤ i → Refused cfg s.hv (s.vm v) i) → i < cfg.ipaLimit ∨ 2 ^ 48 ≤ i := by
      intro i hrange
      by_cases hlt : i < cfg.ipaLimit
      · exact .inl hlt
      · refine .inr ?_
        by_contra hbits
        exact not_refused (by omega) (hrange (by omega))
    exact ⟨hside ipa h.range, hside ipa' h.range'⟩
  · rintro ⟨h1, h2⟩
    have hside : ∀ i, i < cfg.ipaLimit ∨ 2 ^ 48 ≤ i → cfg.ipaLimit ≤ i → Refused cfg s.hv (s.vm v) i :=
      fun i hi hle => refused_of_le (hi.resolve_left (by omega))
    have hlt : ∀ i, i < cfg.ipaLimit ∨ 2 ^ 48 ≤ i → ¬ Refused cfg s.hv (s.vm v) i → i < cfg.ipaLimit := by
      intro i hi hn
      by_contra hge
      exact hn (hside i hi (by omega))
    refine ⟨hside ipa h1, hside ipa' h2, fun hn hn' d hd hdvd hdvd' e e' he he' hee => ?_, fun pa w x hx => ?_⟩
    · rw [← hee] at he'
      have hkey := pteGet_inj hi.tables hclean hd he he'
      rw [cfg.key_of_lt (hlt ipa h1 hn), cfg.key_of_lt (hlt ipa' h2 hn'), Nat.div_div_eq_div_mul,
        Nat.div_div_eq_div_mul] at hkey
      apply hne
      rw [← Nat.div_mul_cancel hdvd, ← Nat.div_mul_cancel hdvd', hkey]
    · rcases h1 with h1 | h1
      · refine archMemMap_page_frame hi.tables rfl hclean h1 pa w ?_
        rw [hx]
        intro he
        apply hne
        rw [← Nat.div_mul_cancel hp, ← Nat.div_mul_cancel hp', he]
      · rw [refused_of_le h1 pa PAGE_SIZE]
        show stage2Walk cfg s.hv.mem (setAm s.am v (s.vm v) w).vttbr x = _
        rw [setAm, Function.update_eq_self]

/-- two pages at boot -/
theorem archMem_unaliased_boot : Unaliased (smallConfig ⟨20, 2, 0, 0⟩ (by decide)) (smallSys fun _ => 0) 0 0 0x1000 :=
  (archMem_unaliased (.init (smallSys_boot _ _ _)) 0
    (fun _ _ _ j h0 h1 => absurd h1 (by
      have : 2 ^ (smallConfig ⟨20, 2, 0, 0⟩ (by decide)).rootOrder = 1 := rfl
      omega)) (by decide) (by decide) (by decide)).mpr ⟨by decide, by decide⟩

/-- **An address of 40 bits where 32 are configured**: it is taken, and has the entry of address 0. -/
theorem archMem_unaliased_fails : ¬ ∀ (cfg : Config) (s : TableSys), (tableSys cfg).Reach s → ∀ v ipa ipa',
    PAGE_SIZE ∣ ipa → PAGE_SIZE ∣ ipa' → ipa ≠ ipa' → Unaliased cfg s v ipa ipa' := by
  intro h
  have hun := h (smallConfig ⟨32, 1, 0, 1⟩ (by decide)) (smallSys fun _ => 0) (.init (smallSys_boot _ _ _)) 0 0
    (2 ^ 39) (by decide) (by decide) (by decide)
  exact hun.entry (not_refused (by decide)) (not_refused (by decide)) 0 (by decide) (by decide) (by decide) 0x40002000
    0x40002000 (by decide) (by decide) rfl

end LkHv
