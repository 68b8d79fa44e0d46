import LkHv.Sysparam.Params

/-!
# The scan of a parameter area (`lib/sysparam/sysparam.c`)

The loop of `sysparam_scan` once more, with the ranges of bytes that it reads and the bytes at which it finds parameters.

* `scanTrace`        the loop; it ends because every turn moves on;
* `scanLoop_trace`   it is the loop of `sysparamScan`;
* `entriesFrom`      the entries of an area, at steps of 4 bytes;
* `Clean`            the condition, on the bytes that the walk comes to;
* `scanTrace_right_iff`, `sysparamScan_right_iff`   under it, and not otherwise, the scan reads its buffer only and adds
                     the entries.
-/

namespace LkHv.Sysparams

/-- `sysparam_len` of the header at a byte -/
def splenAt (b : List UInt8) (pos : Nat) : Nat := sysparamLen (u16 b (pos + 12)) (u16 b (pos + 14))

/-- the checksum in the header is that of the bytes behind it -/
def CrcAt (b : List UInt8) (pos : Nat) : Prop :=
  u32 b (pos + 4) = crc32 0 ((b.drop (pos + 8)).take (splenAt b pos - 8))

instance (b : List UInt8) (pos : Nat) : Decidable (CrcAt b pos) := inferInstanceAs (Decidable (_ = _))

theorem le_splenAt (b : List UInt8) (pos : Nat) : 16 ≤ splenAt b pos := by
  unfold splenAt sysparamLen physSize
  omega

theorem splenAt_mod (b : List UInt8) (pos : Nat) : splenAt b pos % 4 = 0 := by
  unfold splenAt sysparamLen physSize roundup4
  omega

/-- what `sysparam_scan` reads of a parameter that it takes: magic, lengths, checksum, what the checksum is about, and
then flags, name and data -/
def entryReads (b : List UInt8) (pos : Nat) : List (Nat × Nat) :=
  [(pos, 4), (pos + 12, 2), (pos + 14, 2), (pos + 4, 4), (pos + 8, splenAt b pos - 8), (pos + 8, 4),
    (pos + physSize, u16 b (pos + 12)), (pos + physSize + roundup4 (u16 b (pos + 12)), u16 b (pos + 14))]

/-- the loop of `sysparam_scan`: what it reads, and where it finds parameters -/
def scanTrace (b : List UInt8) (lim len pos : Nat) : List (Nat × Nat) × List Nat :=
  if len ≤ pos then ([], [])
  else if u32 b pos ≠ SYSPARAM_MAGIC then
    let r := scanTrace b lim len (pos + 4)
    ((pos, 4) :: r.1, r.2)
  else
    let splen := splenAt b pos
    if pos + splen > lim then ((entryReads b pos).take 3, [])
    else
      let r := scanTrace b lim len (pos + splen)
      if ¬ CrcAt b pos then ((entryReads b pos).take 5 ++ r.1, r.2) else (entryReads b pos ++ r.1, pos :: r.2)
termination_by len - pos
decreasing_by
  · omega
  · have := le_splenAt b pos
    omega

/-! ## what is claimed -/

/-- an entry lies at a byte of the area: its magic, its length inside of the area, its checksum -/
def ValidAt (b : List UInt8) (pos : Nat) : Prop :=
  pos + 16 ≤ b.length ∧ u32 b pos = SYSPARAM_MAGIC ∧ pos + splenAt b pos ≤ b.length ∧ CrcAt b pos

instance (b : List UInt8) (pos : Nat) : Decidable (ValidAt b pos) := inferInstanceAs (Decidable (_ ∧ _))

/-- the entries from a byte on, at steps of 4 bytes -/
def entriesFrom (b : List UInt8) (pos : Nat) : List Nat :=
  if b.length ≤ pos then []
  else if ValidAt b pos then pos :: entriesFrom b (pos + splenAt b pos)
  else entriesFrom b (pos + 4)
termination_by b.length - pos
decreasing_by
  · have := le_splenAt b pos
    omega
  · omega

/-- no entry between two bytes, at steps of 4 -/
def NoEntry (b : List UInt8) (lo hi : Nat) : Prop := ∀ q, lo ≤ q → q < hi → q % 4 = lo % 4 → ¬ ValidAt b q

/-- **What the walk has to meet**, from a byte on.  A word that it looks at lies in the area, and behind a magic the whole
header.  Where the length of a header goes beyond the area it goes beyond `lim` too and no entry comes after; where the
checksum is wrong no entry lies inside of that length. -/
def Clean (b : List UInt8) (lim pos : Nat) : Prop :=
  if b.length ≤ pos then True
  else pos + 4 ≤ b.length ∧ if u32 b pos ≠ SYSPARAM_MAGIC then Clean b lim (pos + 4)
    else pos + 16 ≤ b.length ∧
      if b.length < pos + splenAt b pos then lim < pos + splenAt b pos ∧ NoEntry b (pos + 4) b.length
      else (CrcAt b pos ∨ NoEntry b (pos + 4) (pos + splenAt b pos)) ∧ Clean b lim (pos + splenAt b pos)
termination_by b.length - pos
decreasing_by
  · omega
  · have := le_splenAt b pos
    omega

/-! ## the loop -/

/-- the traced loop is that of `sysparamScan` -/
theorem scanLoop_trace (b : List UInt8) (lim len : Nat) : ∀ n pos, len < pos + n →
    (scanLoop b lim len n pos []).1 = (scanTrace b lim len pos).2.map (sysparamReadPhys b) := by
  intro n
  induction n with
  | zero =>
    intro pos hn
    rw [scanLoop_done (by omega), scanTrace, if_pos (by omega)]
    rfl
  | succ n ih =>
    intro pos hn
    have h16 := le_splenAt b pos
    have hlen : sysparamLen (u16 b (pos + 12)) (u16 b (pos + 14)) = splenAt b pos := rfl
    unfold scanLoop
    rw [scanTrace]
    dsimp only
    rw [hlen]
    by_cases h1 : len ≤ pos
    · rw [if_pos h1, if_pos h1]
      rfl
    rw [if_neg h1, if_neg h1]
    by_cases h2 : u32 b pos ≠ SYSPARAM_MAGIC
    · rw [if_pos h2, if_pos h2]
      exact ih (pos + 4) (by omega)
    rw [if_neg h2, if_neg h2]
    by_cases h3 : pos + splenAt b pos > lim
    · rw [if_pos h3, if_pos h3]
      rfl
    rw [if_neg h3, if_neg h3]
    by_cases h4 : ¬ CrcAt b pos
    · rw [if_pos h4, if_pos (show u32 b (pos + 4) ≠ _ from h4)]
      exact ih _ (by omega)
    · rw [if_neg h4, if_neg (show ¬ u32 b (pos + 4) ≠ _ from h4)]
      exact congrArg (sysparamReadPhys b pos :: ·) (ih _ (by omega))

theorem scanTrace_ge (b : List UInt8) (lim len pos : Nat) : ∀ q ∈ (scanTrace b lim len pos).2, pos ≤ q := by
  induction pos using scanTrace.induct b lim len with
  | case1 pos h =>
    rw [scanTrace, if_pos h]
    intro q hq
    cases hq
  | case2 pos h1 h2 ih =>
    rw [scanTrace, if_neg h1, if_pos h2]
    exact fun q hq => le_trans (Nat.le_add_right pos 4) (ih q hq)
  | case3 pos h1 h2 splen h3 =>
    rw [scanTrace, if_neg h1, if_neg h2]
    dsimp only
    rw [if_pos h3]
    intro q hq
    cases hq
  | case4 pos h1 h2 splen h3 h4 ih =>
    rw [scanTrace, if_neg h1, if_neg h2]
    dsimp only
    rw [if_neg h3, if_pos h4]
    exact fun q hq => le_trans (Nat.le_add_right pos _) (ih q hq)
  | case5 pos h1 h2 splen h3 h4 ih =>
    rw [scanTrace, if_neg h1, if_neg h2]
    dsimp only
    rw [if_neg h3, if_neg h4]
    intro q hq
    rcases List.mem_cons.1 hq with rfl | hq
    · exact Nat.le_refl _
    · exact le_trans (Nat.le_add_right pos _) (ih q hq)

/-- the loop looks at the word it has come to, and at the lengths behind a magic -/
theorem scanTrace_head {b : List UInt8} {lim len pos : Nat} (h : pos < len) : (pos, 4) ∈ (scanTrace b lim len pos).1 ∧
      (u32 b pos = SYSPARAM_MAGIC → (pos + 14, 2) ∈ (scanTrace b lim len pos).1) := by
  have hin : ∀ r ∈ (entryReads b pos).take 3, r ∈ (scanTrace b lim len pos).1 ∨ u32 b pos ≠ SYSPARAM_MAGIC := by
    intro r hr
    by_cases hm : u32 b pos ≠ SYSPARAM_MAGIC
    · exact .inr hm
    left
    rw [scanTrace, if_neg (by omega), if_neg hm]
    dsimp only
    split
    · exact hr
    · split
      · exact List.mem_append_left _ (List.mem_of_mem_take (i := 3) hr)
      · exact List.mem_append_left _ (List.mem_of_mem_take hr)
  constructor
  · rcases hin (pos, 4) (.head _) with h | h
    · exact h
    · rw [scanTrace, if_neg (by omega), if_pos h]
      exact .head _
  · intro hm
    exact (hin (pos + 14, 2) (.tail _ (.tail _ (.head _)))).resolve_right fun h => h hm

/-! ## the entries -/

theorem entriesFrom_of_valid {b : List UInt8} {pos : Nat} (h : ValidAt b pos) :
    entriesFrom b pos = pos :: entriesFrom b (pos + splenAt b pos) := by
  have hlt := h.1
  rw [entriesFrom, if_neg (by omega), if_pos h]

theorem entriesFrom_of_not {b : List UInt8} {pos : Nat} (h : ¬ ValidAt b pos) :
    entriesFrom b pos = entriesFrom b (pos + 4) := by
  rw [entriesFrom, if_neg h]
  split
  · rw [entriesFrom, if_pos (by omega)]
  · rfl

theorem entriesFrom_end {b : List UInt8} {pos : Nat} (h : b.length ≤ pos) : entriesFrom b pos = [] := by
  rw [entriesFrom, if_pos h]

/-- where there is no entry the walk goes on -/
theorem entriesFrom_skip {b : List UInt8} {lo hi : Nat} (hle : lo ≤ hi) (hmod : hi % 4 = lo % 4)
    (h : NoEntry b lo hi) : entriesFrom b lo = entriesFrom b hi := by
  induction hk : hi - lo using Nat.strong_induction_on generalizing lo with
  | _ k ih =>
    by_cases he : lo = hi
    · rw [he]
    rw [entriesFrom_of_not (h lo (Nat.le_refl _) (by omega) rfl)]
    exact ih (hi - (lo + 4)) (by omega) (by omega) (by omega)
      (fun q h1 h2 h3 => h q (by omega) h2 (by omega)) rfl

/-- an entry is found, or one that begins before it -/
theorem exists_entry {b : List UInt8} {lo q : Nat} (h : ValidAt b q) (hle : lo ≤ q) (hmod : q % 4 = lo % 4) :
    ∃ p ∈ entriesFrom b lo, p ≤ q := by
  induction hk : q - lo using Nat.strong_induction_on generalizing lo with
  | _ k ih =>
    by_cases hv : ValidAt b lo
    · rw [entriesFrom_of_valid hv]
      exact ⟨lo, .head _, hle⟩
    · have hne : lo ≠ q := fun e => hv (e ▸ h)
      rw [entriesFrom_of_not hv]
      exact ih (q - (lo + 4)) (by omega) (by omega) (by omega) rfl

theorem noEntry_of_ge {b : List UInt8} {lo hi : Nat} (h : ∀ p ∈ entriesFrom b lo, hi ≤ p) : NoEntry b lo hi := by
  intro q h1 h2 h3 hv
  obtain ⟨p, hp, hle⟩ := exists_entry hv h1 h3
  have := h p hp
  omega

theorem noEntry_iff_nil {b : List UInt8} {lo : Nat} : NoEntry b lo b.length ↔ entriesFrom b lo = [] := by
  constructor
  · intro h
    have hall : NoEntry b lo (lo + 4 * b.length) := fun q h1 _ h3 hv => h q h1 (by have := hv.1; omega) h3 hv
    rw [entriesFrom_skip (Nat.le_add_right _ _) (by omega) hall, entriesFrom_end (by omega)]
  · intro h
    apply noEntry_of_ge
    rw [h]
    intro p hp
    cases hp

/-! ## inside of the buffer -/

theorem u16_append {b : List UInt8} {p : Nat} (x : List UInt8) (h : p + 2 ≤ b.length) : u16 (b ++ x) p = u16 b p := by
  unfold u16
  rw [List.getD_append _ _ _ _ (by omega), List.getD_append _ _ _ _ (by omega)]

theorem u32_append {b : List UInt8} {p : Nat} (x : List UInt8) (h : p + 4 ≤ b.length) : u32 (b ++ x) p = u32 b p := by
  unfold u32
  rw [List.getD_append _ _ _ _ (by omega), List.getD_append _ _ _ _ (by omega),
    List.getD_append _ _ _ _ (by omega), List.getD_append _ _ _ _ (by omega)]

theorem slice_append {b : List UInt8} {p n : Nat} (x : List UInt8) (h : p + n ≤ b.length) :
    ((b ++ x).drop p).take n = (b.drop p).take n := by
  rw [List.drop_append_of_le_length (by omega), List.take_append_of_le_length (by rw [List.length_drop]; omega)]

theorem splenAt_append {b : List UInt8} {p : Nat} (x : List UInt8) (h : p + 16 ≤ b.length) :
    splenAt (b ++ x) p = splenAt b p := by
  unfold splenAt
  rw [u16_append x (by omega), u16_append x (by omega)]

theorem crcAt_append {b : List UInt8} {p : Nat} (x : List UInt8) (h : p + splenAt b p ≤ b.length) :
    CrcAt (b ++ x) p ↔ CrcAt b p := by
  have h16 := le_splenAt b p
  unfold CrcAt
  rw [splenAt_append x (by omega), u32_append x (by omega), slice_append x (by omega)]

theorem sysparamReadPhys_append {b : List UInt8} {p : Nat} (x : List UInt8) (h : p + splenAt b p ≤ b.length) :
    sysparamReadPhys (b ++ x) p = sysparamReadPhys b p := by
  have h16 := le_splenAt b p
  have h1 := le_roundup4 (u16 b (p + 12))
  have h2 := le_roundup4 (u16 b (p + 14))
  have hs : splenAt b p = physSize + roundup4 (u16 b (p + 12)) + roundup4 (u16 b (p + 14)) := rfl
  unfold sysparamReadPhys
  dsimp only
  rw [u16_append x (by omega), u16_append x (by omega), u32_append x (by omega), slice_append x (by omega),
    slice_append x (by omega)]

/-- what is read of an entry lies in its length -/
theorem entryReads_inside {b : List UInt8} {pos : Nat} (h : pos + splenAt b pos ≤ b.length) :
    ∀ r ∈ entryReads b pos, r.1 + r.2 ≤ b.length := by
  have h16 := le_splenAt b pos
  have h1 := le_roundup4 (u16 b (pos + 12))
  have h2 := le_roundup4 (u16 b (pos + 14))
  have hs : splenAt b pos = 16 + roundup4 (u16 b (pos + 12)) + roundup4 (u16 b (pos + 14)) := rfl
  intro r hr
  simp only [entryReads, physSize, List.mem_cons, List.not_mem_nil, or_false] at hr
  rcases hr with rfl | rfl | rfl | rfl | rfl | rfl | rfl | rfl <;> dsimp only <;> omega

/-! ## when the scan is right -/

/-- the loop from a byte on reads its buffer only and finds the entries -/
def RightFrom (b beyond : List UInt8) (lim pos : Nat) : Prop :=
  (∀ r ∈ (scanTrace (b ++ beyond) lim b.length pos).1, r.1 + r.2 ≤ b.length) ∧
    (scanTrace (b ++ beyond) lim b.length pos).2 = entriesFrom b pos

section
variable {b : List UInt8} {lim pos : Nat}

theorem rightFrom_end (beyond : List UInt8) (h : b.length ≤ pos) : RightFrom b beyond lim pos := by
  unfold RightFrom
  rw [scanTrace, if_pos h, entriesFrom_end h]
  exact ⟨fun r hr => (by cases hr), rfl⟩

/-- at a word that is no magic -/
theorem rightFrom_word (beyond : List UInt8) (h : pos + 4 ≤ b.length) (hm : u32 b pos ≠ SYSPARAM_MAGIC) :
    RightFrom b beyond lim pos ↔ RightFrom b beyond lim (pos + 4) := by
  have hv : ¬ ValidAt b pos := fun hv => hm hv.2.1
  unfold RightFrom
  rw [scanTrace, if_neg (by omega), u32_append beyond h, if_pos hm, entriesFrom_of_not hv]
  dsimp only
  rw [List.forall_mem_cons]
  exact ⟨fun h' => ⟨h'.1.2, h'.2⟩, fun h' => ⟨⟨h, h'.1⟩, h'.2⟩⟩

/-- at a header whose length goes beyond the area -/
theorem rightFrom_long (beyond : List UInt8) (h : pos + 16 ≤ b.length) (hm : u32 b pos = SYSPARAM_MAGIC)
    (hs : b.length < pos + splenAt b pos) :
    RightFrom b beyond lim pos ↔ lim < pos + splenAt b pos ∧ NoEntry b (pos + 4) b.length := by
  have hv : ¬ ValidAt b pos := fun hv => by
    have := hv.2.2.1
    omega
  have hlen := splenAt_append beyond h
  unfold RightFrom
  rw [scanTrace, if_neg (by omega), u32_append beyond (by omega), if_neg (fun hne => hne hm),
    entriesFrom_of_not hv, noEntry_iff_nil, hlen]
  dsimp only
  by_cases hlim : pos + splenAt b pos > lim
  · rw [if_pos hlim]
    refine ⟨fun h' => ⟨hlim, h'.2.symm⟩, fun h' => ⟨?_, h'.2.symm⟩⟩
    intro r hr
    simp only [entryReads, List.take_succ_cons, List.take_zero, List.mem_cons, List.not_mem_nil, or_false] at hr
    rcases hr with rfl | rfl | rfl <;> dsimp only <;> omega
  · rw [if_neg hlim]
    refine ⟨fun h' => ?_, fun h' => absurd h'.1 hlim⟩
    -- the checksum is taken over the whole length
    have hread : (pos + 8, splenAt b pos - 8) ∈ (entryReads (b ++ beyond) pos).take 5 := by
      rw [← hlen]
      exact .tail _ (.tail _ (.tail _ (.tail _ (.head _))))
    have hle : pos + 8 + (splenAt b pos - 8) ≤ b.length := by
      split at h'
      · exact h'.1 _ (List.mem_append_left _ hread)
      · exact h'.1 _ (List.mem_append_left _ (List.mem_of_mem_take hread))
    omega

/-- at a header whose length lies in the area -/
theorem rightFrom_entry (beyond : List UInt8) (hlim : b.length ≤ lim) (hm : u32 b pos = SYSPARAM_MAGIC)
    (hs : pos + splenAt b pos ≤ b.length) :
    RightFrom b beyond lim pos ↔ (CrcAt b pos ∨ NoEntry b (pos + 4) (pos + splenAt b pos)) ∧
      RightFrom b beyond lim (pos + splenAt b pos) := by
  have h16 := le_splenAt b pos
  have hlen := splenAt_append beyond (show pos + 16 ≤ b.length by omega)
  have hin : ∀ r ∈ entryReads (b ++ beyond) pos, r.1 + r.2 ≤ b.length := by
    have he : entryReads (b ++ beyond) pos = entryReads b pos := by
      unfold entryReads
      rw [hlen, u16_append beyond (by omega), u16_append beyond (by omega)]
    rw [he]
    exact entryReads_inside hs
  unfold RightFrom
  rw [scanTrace, if_neg (by omega), u32_append beyond (by omega), if_neg (fun hne => hne hm), hlen]
  dsimp only
  rw [if_neg (by omega)]
  by_cases hc : CrcAt b pos
  · rw [if_neg (fun hn => hn ((crcAt_append beyond hs).2 hc)), entriesFrom_of_valid ⟨by omega, hm, hs, hc⟩]
    dsimp only
    rw [List.forall_mem_append, List.cons.injEq]
    exact ⟨fun h' => ⟨.inl hc, h'.1.2, h'.2.2⟩, fun h' => ⟨⟨hin, h'.2.1⟩, rfl, h'.2.2⟩⟩
  · have hv : ¬ ValidAt b pos := fun hv => hc hv.2.2.2
    have hmod := splenAt_mod b pos
    rw [if_pos (fun hn => hc ((crcAt_append beyond hs).1 hn)), entriesFrom_of_not hv]
    dsimp only
    rw [List.forall_mem_append]
    constructor
    · rintro ⟨⟨-, h1⟩, h2⟩
      -- what is found lies behind the length, so no entry lies inside of it
      have hno : NoEntry b (pos + 4) (pos + splenAt b pos) := by
        apply noEntry_of_ge
        rw [← h2]
        exact scanTrace_ge _ _ _ _
      exact ⟨.inr hno, h1, by rw [h2, entriesFrom_skip (by omega) (by omega) hno]⟩
    · rintro ⟨h1, h2, h3⟩
      have hno := h1.resolve_left hc
      refine ⟨⟨fun r hr => hin r (List.mem_of_mem_take hr), h2⟩, ?_⟩
      rw [h3, entriesFrom_skip (by omega) (by omega) hno]

/-- **The scan of the loop is right if and only if its walk is clean.** -/
theorem rightFrom_iff (beyond : List UInt8) (hlim : b.length ≤ lim) (pos : Nat) :
    RightFrom b beyond lim pos ↔ Clean b lim pos := by
  induction pos using Clean.induct b with
  | case1 pos h =>
    rw [Clean, if_pos h]
    exact ⟨fun _ => trivial, fun _ => rightFrom_end beyond h⟩
  | case2 pos h1 ihWord ihEntry =>
    rw [Clean, if_neg h1]
    by_cases h4 : pos + 4 ≤ b.length
    · rw [and_iff_right h4]
      by_cases hm : u32 b pos ≠ SYSPARAM_MAGIC
      · rw [if_pos hm, rightFrom_word beyond h4 hm]
        exact ihWord
      rw [if_neg hm]
      replace hm := not_not.1 hm
      by_cases h16 : pos + 16 ≤ b.length
      · rw [and_iff_right h16]
        by_cases hs : b.length < pos + splenAt b pos
        · rw [if_pos hs]
          exact rightFrom_long beyond h16 hm hs
        · rw [if_neg hs, rightFrom_entry beyond hlim hm (by omega)]
          exact and_congr_right fun _ => ihEntry hs
      · refine ⟨fun h => ?_, fun h => absurd h.1 h16⟩
        have := h.1 _ ((scanTrace_head (by omega)).2 ((u32_append beyond h4).trans hm))
        dsimp only at this
        omega
    · refine ⟨fun h => ?_, fun h => absurd h.1 h4⟩
      exact absurd (h.1 _ (scanTrace_head (by omega)).1) h4

theorem entriesFrom_valid (b : List UInt8) (pos : Nat) : ∀ q ∈ entriesFrom b pos, ValidAt b q := by
  induction pos using entriesFrom.induct b with
  | case1 pos h =>
    rw [entriesFrom_end h]
    intro q hq
    cases hq
  | case2 pos h hv ih =>
    rw [entriesFrom_of_valid hv]
    intro q hq
    rcases List.mem_cons.1 hq with rfl | hq
    · exact hv
    · exact ih q hq
  | case3 pos h hv ih =>
    rw [entriesFrom_of_not hv]
    exact ih

end

section
variable {s s' : Params} {bdev offset len : Nat} {beyond : List UInt8} {n : Int}

/-- what a scan reads and where it finds parameters, when there is memory and the device answers -/
def sysparamScanTrace (s : Params) (bdev offset len : Nat) (beyond : List UInt8) : List (Nat × Nat) × List Nat :=
  if wrap32 len < len then ([], []) else scanTrace (s.area bdev offset len ++ beyond) (offset + len) len 0

/-- **The scan reads its buffer only, and adds the entries of the area to the list.** -/
structure ScanRight (s : Params) (bdev offset len : Nat) (beyond : List UInt8) (s' : Params) : Prop where
  inside : ∀ r ∈ (sysparamScanTrace s bdev offset len beyond).1, r.1 + r.2 ≤ len
  found : (sysparamScanTrace s bdev offset len beyond).2 = entriesFrom (s.area bdev offset len) 0
  list : s'.list = s.list ++ (entriesFrom (s.area bdev offset len) 0).map (sysparamReadPhys (s.area bdev offset len))

/-- the call is the loop, unless its length does not fit a `status_t` -/
theorem sysparamScan_list (h : sysparamScan s bdev offset len ⟨true, true, [], beyond⟩ = some (s', n)) :
    s'.list = s.list ++ (sysparamScanTrace s bdev offset len beyond).2.map
      (sysparamReadPhys (s.area bdev offset len ++ beyond)) := by
  obtain ⟨h0, hsize, hblock⟩ := scan_asserted h
  unfold sysparamScan at h
  dsimp only at h
  unfold sysparamScanTrace
  rw [if_neg (by omega), if_neg (by decide), if_pos rfl] at h
  split at h
  · rename_i hw
    obtain ⟨rfl, -⟩ := Prod.mk.inj (Option.some.inj h)
    rw [if_pos hw]
    exact (List.append_nil _).symm
  · rename_i hw
    obtain ⟨rfl, -⟩ := Prod.mk.inj (Option.some.inj h)
    rw [if_neg hw, ← scanLoop_trace _ _ _ (len + 1) 0 (by omega)]
    rfl

/-- **The scan** is right if and only if its walk is clean; where the length is no `int`, if and only if there is
no entry. -/
theorem sysparamScan_right_iff (h : sysparamScan s bdev offset len ⟨true, true, [], beyond⟩ = some (s', n)) :
    ScanRight s bdev offset len beyond s' ↔
      (len < 2 ^ 31 ∧ Clean (s.area bdev offset len) (offset + len) 0) ∨
        (2 ^ 31 ≤ len ∧ NoEntry (s.area bdev offset len) 0 len) := by
  obtain ⟨h0, hsize, hblock⟩ := scan_asserted h
  have hlist := sysparamScan_list h
  have hlen : (s.area bdev offset len).length = len := by
    unfold Params.area
    rw [List.length_take, List.length_drop]
    omega
  by_cases hlt : len < 2 ^ 31
  · have hw : ¬ wrap32 (len : Int) < len := by
      rw [wrap32_of_range (by omega) (by omega)]
      exact lt_irrefl _
    have htrace : sysparamScanTrace s bdev offset len beyond =
        scanTrace (s.area bdev offset len ++ beyond) (offset + len) (s.area bdev offset len).length 0 := by
      rw [sysparamScanTrace, if_neg hw, hlen]
    rw [or_iff_left (by omega), and_iff_right hlt, ← rightFrom_iff beyond (by omega)]
    constructor
    · intro hr
      have h1 := hr.inside
      have h2 := hr.found
      rw [htrace] at h1 h2
      exact ⟨fun r hr => by rw [hlen]; exact h1 r hr, h2⟩
    · rintro ⟨h1, h2⟩
      rw [← htrace] at h1 h2
      rw [hlen] at h1
      refine ⟨h1, h2, ?_⟩
      have hread : (entriesFrom (s.area bdev offset len) 0).map
          (sysparamReadPhys (s.area bdev offset len ++ beyond)) =
          (entriesFrom (s.area bdev offset len) 0).map (sysparamReadPhys (s.area bdev offset len)) := by
        apply List.map_congr_left
        intro q hq
        exact sysparamReadPhys_append beyond (entriesFrom_valid _ _ q hq).2.2.1
      rw [hlist, h2, hread]
  · have hw : wrap32 (len : Int) < len := by
      have := Int.bmod_lt (x := (len : Int)) (m := 2 ^ 32) (by decide)
      unfold wrap32
      omega
    have htrace : sysparamScanTrace s bdev offset len beyond = ([], []) := by
      rw [sysparamScanTrace, if_pos hw]
    rw [or_iff_right (by omega), and_iff_right (by omega)]
    rw [htrace] at hlist
    have hno : NoEntry (s.area bdev offset len) 0 (s.area bdev offset len).length ↔ _ := noEntry_iff_nil
    rw [hlen] at hno
    rw [hno]
    constructor
    · intro hr
      have h2 := hr.found
      rw [htrace] at h2
      exact h2.symm
    · intro he
      refine ⟨by rw [htrace]; exact fun r hr => (by cases hr), by rw [htrace, he], ?_⟩
      rw [he]
      exact hlist

/-- a scan of zeros -/
theorem sysparamScan_right_zeros : ∃ s' n, sysparamScan (.init emptyDevs) 0 16 48 allFine = some (s', n) ∧
    (ScanRight (.init emptyDevs) 0 16 48 [] s' ↔
      (48 < 2 ^ 31 ∧ Clean ((Params.init emptyDevs).area 0 16 48) (16 + 48) 0) ∨
        (2 ^ 31 ≤ 48 ∧ NoEntry ((Params.init emptyDevs).area 0 16 48) 0 48)) := by
  have h : sysparamScan (.init emptyDevs) 0 16 48 allFine = _ := scan_fine
    ⟨rfl, rfl, fun x hx => (by cases hx)⟩ (by decide) (by decide) (by decide) (by decide)
  exact ⟨_, _, h, sysparamScan_right_iff h⟩

/-- a header alone, with a name of 16 bytes -/
def loneHeader : List UInt8 := bytes32 SYSPARAM_MAGIC ++ (bytes32 0 ++ (bytes32 0 ++ (bytes16 16 ++ bytes16 0)))

/-- at an offset of 16 the area may seem as long as the device: the checksum is taken over 16 bytes behind it -/
theorem sysparamScan_right_fails : ¬ ∀ (s s' : Params) (bdev offset len : Nat) (beyond : List UInt8) (n : Int),
    sysparamScan s bdev offset len ⟨true, true, [], beyond⟩ = some (s', n) →
      ScanRight s bdev offset len beyond s' := by
  intro hall
  let s := Params.init fun _ => ⟨16, zeros 16 ++ loneHeader⟩
  have hs : sysparamScan s 0 16 16 allFine = _ := scan_fine
    ⟨rfl, rfl, fun x hx => (by cases hx)⟩ (by decide) (by decide) (by decide) (by decide)
  have hr := hall _ _ 0 16 16 [] _ hs
  have h1 := hr.inside
  have h2 := hr.found
  have harea : s.area 0 16 16 = loneHeader := by decide
  have htrace : sysparamScanTrace s 0 16 16 [] = scanTrace (loneHeader ++ []) 32 loneHeader.length 0 := by
    rw [sysparamScanTrace, if_neg (by decide), harea]
    rfl
  rw [htrace] at h1 h2
  rw [harea] at h2
  have hright : RightFrom loneHeader [] 32 0 := ⟨h1, h2⟩
  rw [rightFrom_long [] (by decide) (by decide) (by decide)] at hright
  exact absurd hright.1 (by decide)

end

end LkHv.Sysparams
