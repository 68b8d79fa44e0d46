import LkHv.Stage2.Meaning

/-!
# The arguments of `arch_mem_map` and `arch_mem_unmap`

* `mapLoop`, `unmapLoop`         the two loops, with their own variables and no bound on the rounds;
* `mapLoop_eq`, `unmapLoop_eq`   they end, with the results of the bounded loops;
* `ArgsChecked`         what the two functions should do with their arguments;
* `archMem_args_iff`    when they do;
* `archMem_args_fails`  not so for an address in the middle of a page.
-/

namespace LkHv

/-- `while (len > 0)`: the results and the `len` that is left, `none` after `n` rounds without an end -/
def rangeLoop (cfg : Config) (err : Int) (block : Nat → Nat → Nat → Bool) (blockVal pageVal : Nat → Nat) :
    Nat → Hv → VmMem → Nat → Nat → Int → Option ((Hv × VmMem × Int) × Int)
  | 0, _, _, _, _, _ => none
  | n + 1, s, vmMem, pa, ipa, len =>
    if len > 0 then
      if block pa ipa len.toNat then
        let r := setEntry cfg s vmMem ipa 2 (blockVal pa)
        if r.2.2 then
          rangeLoop cfg err block blockVal pageVal n r.1 r.2.1 (pa + VM_MEM_BLOCK_2M) (ipa + VM_MEM_BLOCK_2M)
            (len - VM_MEM_BLOCK_2M)
        else some ((r.1, r.2.1, err), len)
      else
        let r := setEntry cfg s vmMem ipa 3 (pageVal pa)
        if r.2.2 then
          rangeLoop cfg err block blockVal pageVal n r.1 r.2.1 (pa + PAGE_SIZE) (ipa + PAGE_SIZE) (len - PAGE_SIZE)
        else some ((r.1, r.2.1, err), len)
    else some ((s, vmMem, 0), len)

/-- the loop of `arch_mem_map` -/
def mapLoop (cfg : Config) (n : Nat) (s : Hv) (vmMem : VmMem) (pa ipa : Nat) (len : Int) :
    Option ((Hv × VmMem × Int) × Int) :=
  rangeLoop cfg ERR_NO_MEMORY blockStep (fun pa => MMU_PTE_BLOCK ||| pa) (fun pa => MMU_PTE_TABLE ||| pa) n s vmMem pa
    ipa len

/-- the loop of `arch_mem_unmap`, which has no `pa` -/
def unmapLoop (cfg : Config) (n : Nat) (s : Hv) (vmMem : VmMem) (ipa : Nat) (len : Int) :
    Option ((Hv × VmMem × Int) × Int) :=
  rangeLoop cfg ERR_NOT_FOUND (fun _ ipa len => blockStep ipa ipa len) (fun _ => 0) (fun _ => 0) n s vmMem 0 ipa len

/-- a loop that ended at `left`: with an error before the end, or at it -/
def Consumed (err ret : Int) (left : Int) : Prop := (ret = 0 ∧ left = 0) ∨ (ret = err ∧ 0 < left)

/-- **The arguments are checked**: what is no range of pages below 48 bits is refused and changes nothing, and a loop
that is entered ends, having consumed `len` bytes unless a page of the range could not be entered. -/
structure ArgsChecked (err : Int) (valid : Prop) (s : Hv) (vmMem : VmMem) (call : Hv × VmMem × Int)
    (loop : Nat → Option ((Hv × VmMem × Int) × Int)) : Prop where
  rejected : ¬ valid → call = (s, vmMem, ERR_INVALID_ARGS)
  consumed : call.2.2 ≠ ERR_INVALID_ARGS → ∃ n left, loop n = some (call, left) ∧ Consumed err call.2.2 left

/-- what the alignment test is for -/
def MapAligned (pa ipa : Nat) (len : Int) : Prop := PAGE_SIZE ∣ pa ∧ PAGE_SIZE ∣ ipa ∧ (PAGE_SIZE : Int) ∣ len

/-- what the other tests are for -/
def MapInRange (pa ipa : Nat) (len : Int) : Prop := (PAGE_SIZE : Int) ≤ len ∧ pa < 2 ^ 48 ∧ ipa < 2 ^ 48

def UnmapAligned (ipa : Nat) (len : Int) : Prop := PAGE_SIZE ∣ ipa ∧ (PAGE_SIZE : Int) ∣ len

def UnmapInRange (ipa : Nat) (len : Int) : Prop := (PAGE_SIZE : Int) ≤ len ∧ ipa < 2 ^ 48

/-! ## the loops end -/

section
variable {cfg : Config} {err : Int} {block : Nat → Nat → Nat → Bool} {blockVal pageVal : Nat → Nat}

/-- **The loop**, when `off` bytes are done: it ends, with the results of the bounded one -/
theorem rangeLoop_eq (pa ipa len : Nat) (hblock : ∀ p i l, block p i l → VM_MEM_BLOCK_2M ∣ l) {eblock : Nat → Bool}
    {eblockVal epageVal : Nat → Nat} (hb : ∀ o, eblock o = block (pa + o) (ipa + o) (len - o))
    (hbv : ∀ o, eblockVal o = blockVal (pa + o)) (hpv : ∀ o, epageVal o = pageVal (pa + o)) (n : Nat) :
    ∀ (s : Hv) (vm : VmMem) (off : Nat), len ≤ off + PAGE_SIZE * n →
      ∃ r left, editLoop cfg err eblock eblockVal epageVal ipa len n s vm off = r ∧
        rangeLoop cfg err block blockVal pageVal (n + 1) s vm (pa + off) (ipa + off) ((len : Int) - off) =
          some (r, left) ∧ (r.2.2 = 0 ∨ r.2.2 = err) ∧
        (PAGE_SIZE ∣ len → PAGE_SIZE ∣ off → off ≤ len → Consumed err r.2.2 left) := by
  induction n with
  | zero =>
    intro s vm off hn
    refine ⟨_, (len : Int) - off, rfl, ?_, .inl rfl, fun _ _ hle => .inl ⟨rfl, by omega⟩⟩
    rw [rangeLoop, if_neg (by omega), editLoop]
  | succ n ih =>
    intro s vm off hn
    rw [rangeLoop, editLoop]
    by_cases hle : len ≤ off
    · rw [if_pos hle, if_neg (show ¬ (len : Int) - off > 0 by omega)]
      exact ⟨_, (len : Int) - off, rfl, rfl, .inl rfl, fun _ _ hle => .inl ⟨rfl, by omega⟩⟩
    have hlen : ((len : Int) - off).toNat = len - off := by omega
    rw [if_neg hle, if_pos (show (len : Int) - off > 0 by omega), hlen, ← hb, hbv, hpv]
    dsimp only
    split
    · rename_i hblk
      rw [hb] at hblk
      obtain ⟨c, hc⟩ := hblock _ _ _ hblk
      split
      · obtain ⟨r, left, hr, hrun, hret, hdone⟩ := ih (setEntry cfg s vm (ipa + off) 2 (blockVal (pa + off))).1
          (setEntry cfg s vm (ipa + off) 2 (blockVal (pa + off))).2.1 (off + VM_MEM_BLOCK_2M)
          (by unfold VM_MEM_BLOCK_2M PAGE_SIZE at *; omega)
        refine ⟨r, left, hr, ?_, hret, fun h1 h2 h3 => hdone h1 (Nat.dvd_add h2 ⟨512, by decide⟩) ?_⟩
        · rw [← hrun, Nat.add_assoc, Nat.add_assoc, Int.natCast_add, Int.sub_sub]
        · rcases c with _ | c
          · omega
          · unfold VM_MEM_BLOCK_2M at *
            omega
      · exact ⟨_, _, rfl, rfl, .inr rfl, fun _ _ _ => .inr ⟨rfl, by omega⟩⟩
    · split
      · obtain ⟨r, left, hr, hrun, hret, hdone⟩ := ih (setEntry cfg s vm (ipa + off) 3 (pageVal (pa + off))).1
          (setEntry cfg s vm (ipa + off) 3 (pageVal (pa + off))).2.1 (off + PAGE_SIZE)
          (by unfold PAGE_SIZE at *; omega)
        refine ⟨r, left, hr, ?_, hret, fun h1 h2 h3 => hdone h1 (Nat.dvd_add h2 (Nat.dvd_refl _)) ?_⟩
        · rw [← hrun, Nat.add_assoc, Nat.add_assoc, Int.natCast_add, Int.sub_sub]
        · unfold PAGE_SIZE at *
          omega
      · exact ⟨_, _, rfl, rfl, .inr rfl, fun _ _ _ => .inr ⟨rfl, by omega⟩⟩

theorem blockStep_len {pa ipa len : Nat} (h : blockStep pa ipa len) : VM_MEM_BLOCK_2M ∣ len :=
  ((blockStep_iff pa ipa len).mp h).2.2

/-- the loop of `arch_mem_map` ends -/
theorem mapLoop_eq (cfg : Config) (s : Hv) (vm : VmMem) (pa ipa len : Nat) :
    ∃ n left, mapLoop cfg n s vm pa ipa len = some (archMemMapLoop cfg s vm pa ipa len, left) ∧
      ((archMemMapLoop cfg s vm pa ipa len).2.2 = 0 ∨ (archMemMapLoop cfg s vm pa ipa len).2.2 = ERR_NO_MEMORY) ∧
      (PAGE_SIZE ∣ len → Consumed ERR_NO_MEMORY (archMemMapLoop cfg s vm pa ipa len).2.2 left) := by
  obtain ⟨r, left, hr, hrun, hret, hdone⟩ := @rangeLoop_eq cfg ERR_NO_MEMORY blockStep
    (fun pa => MMU_PTE_BLOCK ||| pa) (fun pa => MMU_PTE_TABLE ||| pa) pa ipa len
    (fun _ _ _ => blockStep_len) _ _ _ (fun _ => rfl) (fun _ => rfl) (fun _ => rfl) (len / PAGE_SIZE + 1) s vm 0
    (by rw [Nat.zero_add]; exact len_le_rounds len)
  have hr : archMemMapLoop cfg s vm pa ipa len = r := hr
  rw [hr]
  refine ⟨len / PAGE_SIZE + 1 + 1, left, ?_, hret, fun hl => hdone hl (Nat.dvd_zero _) (Nat.zero_le _)⟩
  rw [← hrun, Nat.add_zero, Nat.add_zero, Int.natCast_zero, Int.sub_zero]
  rfl

/-- the loop of `arch_mem_unmap` ends -/
theorem unmapLoop_eq (cfg : Config) (s : Hv) (vm : VmMem) (ipa len : Nat) :
    ∃ n left, unmapLoop cfg n s vm ipa len = some (archMemUnmapLoop cfg s vm ipa len, left) ∧
      ((archMemUnmapLoop cfg s vm ipa len).2.2 = 0 ∨ (archMemUnmapLoop cfg s vm ipa len).2.2 = ERR_NOT_FOUND) ∧
      (PAGE_SIZE ∣ len → Consumed ERR_NOT_FOUND (archMemUnmapLoop cfg s vm ipa len).2.2 left) := by
  obtain ⟨r, left, hr, hrun, hret, hdone⟩ := @rangeLoop_eq cfg ERR_NOT_FOUND
    (fun _ ipa len => blockStep ipa ipa len) (fun _ => 0) (fun _ => 0) 0 ipa len
    (fun _ _ _ => blockStep_len) _ _ _ (fun _ => rfl) (fun _ => rfl) (fun _ => rfl) (len / PAGE_SIZE + 1) s vm 0
    (by rw [Nat.zero_add]; exact len_le_rounds len)
  have hr : archMemUnmapLoop cfg s vm ipa len = r := hr
  rw [hr]
  refine ⟨len / PAGE_SIZE + 1 + 1, left, ?_, hret, fun hl => hdone hl (Nat.dvd_zero _) (Nat.zero_le _)⟩
  rw [← hrun, Nat.add_zero, Nat.add_zero, Int.natCast_zero, Int.sub_zero]
  rfl

end

/-! ## the tests -/

theorem oaOut_eq_zero {x : Nat} : oaOut x = 0 ↔ x < 2 ^ 48 := by
  rw [oaOut, Nat.shiftRight_eq_div_pow, Nat.div_eq_zero_iff]
  lia

theorem archMemMap_rejects {cfg : Config} {s : Hv} {vm : VmMem} {pa ipa : Nat} {len : Int}
    (h : ¬ MapInRange pa ipa len) : archMemMap cfg s vm pa ipa len = (s, vm, ERR_INVALID_ARGS) := by
  unfold archMemMap
  split
  · rfl
  · rename_i ho
    rw [if_pos]
    refine .inr (.inl ?_)
    by_contra hlen
    refine h ⟨by omega, oaOut_eq_zero.mp ?_, oaOut_eq_zero.mp ?_⟩
    · by_contra hp
      exact ho (.inl hp)
    · by_contra hi
      exact ho (.inr hi)

theorem archMemUnmap_rejects {cfg : Config} {s : Hv} {vm : VmMem} {ipa : Nat} {len : Int}
    (h : ¬ UnmapInRange ipa len) : archMemUnmap cfg s vm ipa len = (s, vm, ERR_INVALID_ARGS) := by
  unfold archMemUnmap
  split
  · rfl
  · rename_i ho
    rw [if_pos]
    refine .inr (.inl ?_)
    by_contra hlen
    exact h ⟨by omega, oaOut_eq_zero.mp (by by_contra hi; exact ho hi)⟩

/-- a function that makes one of two tests -/
theorem ArgsChecked.iff {err : Int} {aligned inRange : Prop} {s : Hv} {vm : VmMem} {call : Hv × VmMem × Int}
    {loop : Nat → Option ((Hv × VmMem × Int) × Int)} (herr : err ≠ ERR_INVALID_ARGS)
    (hno : ¬ inRange → call = (s, vm, ERR_INVALID_ARGS))
    (hyes : inRange → ∃ n left, loop n = some (call, left) ∧ (call.2.2 = 0 ∨ call.2.2 = err) ∧
      (aligned → Consumed err call.2.2 left)) :
    ArgsChecked err (aligned ∧ inRange) s vm call loop ↔ aligned ∨ ¬ inRange := by
  constructor
  · intro h
    by_contra hneither
    obtain ⟨hal, hin⟩ := not_or.mp hneither
    have hin := not_not.mp hin
    have hrej := h.rejected fun hv => hal hv.1
    obtain ⟨n, left, -, hret, -⟩ := hyes hin
    rw [hrej] at hret
    rcases hret with hret | hret
    · exact absurd hret (show ¬ ERR_INVALID_ARGS = 0 by decide)
    · exact herr hret.symm
  · intro h
    constructor
    · intro hv
      exact hno fun hin => hv ⟨h.resolve_right (not_not.mpr hin), hin⟩
    · intro hret
      have hin : inRange := by
        by_contra hin
        rw [hno hin] at hret
        exact hret rfl
      obtain ⟨n, left, hrun, -, hdone⟩ := hyes hin
      exact ⟨n, left, hrun, hdone (h.resolve_right (not_not.mpr hin))⟩

/-- **The arguments.**  `IS_PAGE_ALIGN` holds of everything, so they are checked if and only if `pa`, `ipa` and `len`
are of whole pages anyhow, or one of the other tests refuses them. -/
theorem archMem_args_iff (cfg : Config) (s : Hv) (vm : VmMem) (pa ipa : Nat) (len : Int) :
    (ArgsChecked ERR_NO_MEMORY (MapAligned pa ipa len ∧ MapInRange pa ipa len) s vm (archMemMap cfg s vm pa ipa len)
        (fun n => mapLoop cfg n s vm pa ipa len) ↔ MapAligned pa ipa len ∨ ¬ MapInRange pa ipa len) ∧
      (ArgsChecked ERR_NOT_FOUND (UnmapAligned ipa len ∧ UnmapInRange ipa len) s vm (archMemUnmap cfg s vm ipa len)
        (fun n => unmapLoop cfg n s vm ipa len) ↔ UnmapAligned ipa len ∨ ¬ UnmapInRange ipa len) := by
  refine ⟨ArgsChecked.iff (by decide) archMemMap_rejects fun h => ?_,
    ArgsChecked.iff (by decide) archMemUnmap_rejects fun h => ?_⟩
  · obtain ⟨hlen, hpa, hipa⟩ := h
    obtain ⟨l, rfl⟩ := Int.eq_ofNat_of_zero_le (show 0 ≤ len by unfold PAGE_SIZE at hlen; lia)
    rw [archMemMap_loop hpa hipa (by lia)]
    obtain ⟨n, left, hrun, hret, hdone⟩ := mapLoop_eq cfg s vm pa ipa l
    exact ⟨n, left, hrun, hret, fun hal => hdone (Int.natCast_dvd_natCast.mp hal.2.2)⟩
  · obtain ⟨hlen, hipa⟩ := h
    obtain ⟨l, rfl⟩ := Int.eq_ofNat_of_zero_le (show 0 ≤ len by unfold PAGE_SIZE at hlen; lia)
    rw [archMemUnmap_loop hipa (by lia)]
    obtain ⟨n, left, hrun, hret, hdone⟩ := unmapLoop_eq cfg s vm ipa l
    exact ⟨n, left, hrun, hret, fun hal => hdone (Int.natCast_dvd_natCast.mp hal.2)⟩

/-- **An address in the middle of a page** is not refused. -/
theorem archMem_args_fails : ¬ ∀ (cfg : Config) (s : Hv) (vm : VmMem) (pa ipa : Nat) (len : Int),
    ArgsChecked ERR_NO_MEMORY (MapAligned pa ipa len ∧ MapInRange pa ipa len) s vm (archMemMap cfg s vm pa ipa len)
      fun n => mapLoop cfg n s vm pa ipa len := by
  intro h
  have hrej := (h (smallConfig ⟨20, 2, 0, 0⟩ (by decide)) (smallSys fun _ => 0).hv VmMem.boot 0x50000000 1
    0x1000).rejected fun hv => absurd hv.1.2.1 (by decide)
  have hret := congrArg (fun r => r.2.2) hrej
  revert hret
  decide

end LkHv
