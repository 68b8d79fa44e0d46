import LkHv.Ptable.Table

/-!
# The allocator of the partition table

* `Fits`                       a range that overlaps no entry and lies in one erase region;
* `adjustRequest_spec`         a request adjusted to a region stays in it;
* `allocate_spec`, `allocateAt_spec`   the allocator finds such a range, and none of its assertions fails.
-/

namespace LkHv
open Bio

/-- one erase region holds the range, if there are any -/
def InRegions (b : Bdev) (offset length : Nat) : Prop :=
  b.geometry ≠ [] → ∃ g ∈ b.geometry, g.start ≤ offset ∧ offset + length ≤ g.start + g.size

/-- a range of the device that is free of entries -/
structure Fits (b : Bdev) (list : List PtableEntry) (offset length : Nat) : Prop where
  inside : offset + length ≤ b.totalSize
  free : ∀ e ∈ list, offset + length ≤ e.offset ∨ e.stop ≤ offset
  regions : InRegions b offset length

/-- the entries in order and apart, at block boundaries of the device -/
structure Ordered (b : Bdev) (list : List PtableEntry) : Prop where
  apart : list.Pairwise fun a b => a.stop ≤ b.offset
  inside : ∀ e ∈ list, e.stop ≤ b.totalSize
  aligned : ∀ e ∈ list, 2 ^ b.blockShift ∣ e.offset ∧ 2 ^ b.blockShift ∣ e.length

namespace Bio.Bdev

theorem block_dvd_total (b : Bdev) : 2 ^ b.blockShift ∣ b.totalSize := by
  rw [b.total_mul, b.blockSize_eq]
  exact Nat.dvd_mul_left _ _

theorem block_le (b : Bdev) : 2 ^ b.blockShift ≤ 2 ^ 31 := by
  rw [← b.blockSize_eq]
  exact b.blockSize_le

end Bio.Bdev

section
variable {b : Bdev} {list : List PtableEntry} {offset length rs rl n : Nat} {allocEnd : Bool}

theorem and_mask_ne (x k : Nat) : x &&& (2 ^ k - 1) ≠ 0 ↔ ¬ 2 ^ k ∣ x := by
  rw [Nat.and_two_pow_sub_one_eq_mod, Nat.dvd_iff_mod_eq_zero]

theorem add64_of_inside (h : rs + rl ≤ b.totalSize) : add64 rs rl = rs + rl := by
  have := b.total_lt
  exact add64_of_lt (by omega)

/-- a round up within the device -/
theorem roundup_shl {x k : Nat} (h : x < 2 ^ 63) : shl1 k ∣ roundup64 x (shl1 k) ∧ x ≤ roundup64 x (shl1 k) ∧
    roundup64 x (shl1 k) < x + shl1 k := by
  have hpos := shl1_pos k
  have hle := shl1_le k
  have hlt : x + (shl1 k - 1) < 2 ^ 64 := by omega
  obtain ⟨h1, h2, -⟩ := roundup64_spec hpos hlt
  refine ⟨h1, h2, ?_⟩
  unfold roundup64
  rw [Nat.mod_eq_of_lt hlt]
  have := Nat.div_mul_le_self (x + (shl1 k - 1)) (shl1 k)
  omega

/-- a multiple of the block size stays one when it is rounded up to erase units -/
theorem roundup_block {x j k : Nat} (h : x < 2 ^ 63) (hd : 2 ^ j ∣ x) : 2 ^ j ∣ roundup64 x (shl1 k) := by
  obtain ⟨h1, h2, h3⟩ := roundup_shl (k := k) h
  unfold shl1 at *
  rcases Nat.le_total j (k % 64) with hj | hj
  · exact (Nat.pow_dvd_pow 2 hj).trans h1
  · have hdx : 2 ^ (k % 64) ∣ x := (Nat.pow_dvd_pow 2 hj).trans hd
    obtain ⟨u, hu⟩ := hdx
    obtain ⟨v, hv⟩ := h1
    have hpos : 0 < 2 ^ (k % 64) := Nat.two_pow_pos _
    have huv : u = v := by
      rw [hv, hu] at h2 h3
      have h4 := Nat.le_of_mul_le_mul_left h2 hpos
      rw [← Nat.mul_succ] at h3
      have h5 := Nat.lt_of_mul_lt_mul_left h3
      lia
    rw [hv, ← huv, ← hu]
    exact hd

/-! ## one region -/

theorem err_neg {α : Type} {c : Int} (h : c < 0) : ∀ err, (Except.error c : Except Int α) = .error err → err < 0 := by
  intro err e
  rw [← Except.error.inj e]
  exact h

theorem ok_neg {α : Type} {x : α} : ∀ err, (Except.ok x : Except Int α) = .error err → err < 0 := by
  intro err e
  cases e

/-- what an adjusted request is -/
structure Adjusted (b : Bdev) (rs rl n offset length : Nat) : Prop where
  start : rs ≤ offset
  stop : offset + length ≤ rs + rl
  block : 2 ^ b.blockShift ∣ length
  regions : InRegions b offset length

theorem adjustInRegions_spec (hin : rs + rl ≤ b.totalSize) (hn : n ≤ rl) (hd : 2 ^ b.blockShift ∣ n) :
    ∀ (l : List EraseRegion), (∀ g ∈ l, g ∈ b.geometry) → ∃ r, adjustInRegions rs rl n allocEnd l = some r ∧
      (∀ err, r = .error err → err < 0) ∧ ∀ offset length, r = .ok (offset, length) → Adjusted b rs rl n offset length := by
  have htotal := b.total_lt
  intro l
  induction l with
  | nil =>
    intro _
    refine ⟨_, rfl, err_neg (by decide), ?_⟩
    intro offset length h
    cases h
  | cons g l ih =>
    intro hl
    have hg := b.regions g (hl g (.head _))
    have ih := ih fun g hg => hl g (.tail _ hg)
    rw [adjustInRegions, bioDoesOverlap]
    dsimp only
    rw [add64_of_inside hin, add64_of_inside hg, if_neg (by omega)]
    by_cases ho : (rs ≥ g.start ∧ rs < g.start + g.size) ∨ (g.start ≥ rs ∧ g.start < rs + rl)
    · rw [decide_eq_true ho]
      dsimp only
      obtain ⟨-, hs, -⟩ := roundup_shl (k := g.eraseShift) (show max rs g.start < 2 ^ 63 by omega)
      have hlen := roundup_block (k := g.eraseShift) (show n < 2 ^ 63 by omega) hd
      have hend : rounddown (min (rs + rl) (g.start + g.size)) (shl1 g.eraseShift) ≤
        min (rs + rl) (g.start + g.size) := Nat.div_mul_le_self _ _
      have hlt : roundup64 n (shl1 g.eraseShift) < 2 ^ 64 :=
        Nat.lt_of_le_of_lt (Nat.div_mul_le_self _ _) (Nat.mod_lt _ (by decide))
      have hslt : roundup64 (max rs g.start) (shl1 g.eraseShift) < 2 ^ 64 :=
        Nat.lt_of_le_of_lt (Nat.div_mul_le_self _ _) (Nat.mod_lt _ (by decide))
      generalize roundup64 (max rs g.start) (shl1 g.eraseShift) = rstart at *
      generalize rounddown (min (rs + rl) (g.start + g.size)) (shl1 g.eraseShift) = rend at *
      generalize roundup64 n (shl1 g.eraseShift) = len at *
      split
      · exact ih
      · rename_i hfit
        have hsum : rstart + len ≤ rend := by
          unfold add64 at hfit
          omega
        refine ⟨_, rfl, ok_neg, ?_⟩
        intro offset length h
        obtain ⟨rfl, rfl⟩ := Prod.mk.inj (Except.ok.inj h)
        cases allocEnd with
        | true =>
          rw [if_pos rfl]
          exact ⟨by omega, by omega, hlen, fun _ => ⟨g, hl g (.head _), by omega, by omega⟩⟩
        | false =>
          rw [if_neg (by decide)]
          exact ⟨by omega, by omega, hlen, fun _ => ⟨g, hl g (.head _), by omega, by omega⟩⟩
    · rw [decide_eq_false ho]
      exact ih

/-- **One region**: no assertion fails, and the request stays in it. -/
theorem adjustRequest_spec (allocEnd : Bool) (hin : rs + rl ≤ b.totalSize) (h1 : 2 ^ b.blockShift ∣ rs) (h2 : 2 ^ b.blockShift ∣ rl)
    (hd : 2 ^ b.blockShift ∣ n) : ∃ r, ptableAdjustRequest b rs rl n allocEnd = some r ∧
      (∀ err, r = .error err → err < 0) ∧ ∀ offset length, r = .ok (offset, length) → Adjusted b rs rl n offset length := by
  unfold ptableAdjustRequest
  dsimp only
  have hmask : ¬ (n &&& (2 ^ b.blockShift - 1) ≠ 0 ∨ rs &&& (2 ^ b.blockShift - 1) ≠ 0 ∨
      rl &&& (2 ^ b.blockShift - 1) ≠ 0) := by
    rw [and_mask_ne, and_mask_ne, and_mask_ne]
    rintro (h | h | h)
    · exact h hd
    · exact h h1
    · exact h h2
  rw [if_neg hmask, add64_of_inside hin, if_neg (by lia)]
  split
  · refine ⟨_, rfl, err_neg (by decide), ?_⟩
    intro offset length h
    cases h
  rename_i hn
  have hn : n ≤ rl := by lia
  split
  · rename_i hg
    refine ⟨_, rfl, ok_neg, ?_⟩
    intro offset length h
    obtain ⟨rfl, rfl⟩ := Prod.mk.inj (Except.ok.inj h)
    cases allocEnd with
    | true =>
      rw [if_pos rfl]
      exact ⟨by lia, by lia, hd, fun h => absurd hg h⟩
    | false =>
      rw [if_neg (by decide)]
      exact ⟨by lia, by lia, hd, fun h => absurd hg h⟩
  · apply adjustInRegions_spec hin hn hd
    intro g hg
    cases allocEnd with
    | true => exact List.mem_reverse.mp hg
    | false => exact hg

/-! ## the search -/

theorem regionStartOf_some {e : PtableEntry} (h : e.stop ≤ b.totalSize) : regionStartOf (some e) = e.stop := add64_of_inside h

theorem allocateLoop_spec {all : List PtableEntry} : ∀ {rest : List PtableEntry} {last : Option PtableEntry}
    {best : Option Nat} {length lo : Nat}, regionStartOf last = lo → (last = none → rest ≠ []) →
    (∀ e ∈ all, e ∈ rest ∨ e.stop ≤ lo) → (∀ e ∈ rest, lo ≤ e.offset) → Ordered b rest → lo ≤ b.totalSize →
    2 ^ b.blockShift ∣ lo → 2 ^ b.blockShift ∣ length → (∀ offset, best = some offset → Fits b all offset length) →
    ∃ r, allocateLoop b allocEnd last best length rest = some r ∧
      (∀ err, r = .error err → err < 0) ∧ ∀ offset length, r = .ok (offset, length) → Fits b all offset length := by
  have htotal := b.total_lt
  intro rest
  induction rest with
  | nil =>
    intro last best length lo hlo hne hall _ _ hin hd hlen hbest
    have hres : (∀ err, bestOf best length = .error err → err < 0) ∧
        ∀ offset len, bestOf best length = .ok (offset, len) → Fits b all offset len := by
      cases best with
      | none => exact ⟨err_neg (by decide), fun _ _ h => by cases h⟩
      | some o =>
        refine ⟨ok_neg, ?_⟩
        intro offset len h
        obtain ⟨rfl, rfl⟩ := Prod.mk.inj (Except.ok.inj h)
        exact hbest o rfl
    cases last with
    | none => exact absurd rfl (hne rfl)
    | some e =>
      have hsub : sub64 b.totalSize lo = b.totalSize - lo := sub64_of_le (by lia) hin
      have hgo : ¬ ((some e).isNone = true ∨ b.totalSize - lo ≥ 2 ^ 63) := by
        rintro (h | h)
        · cases h
        · lia
      rw [allocateLoop]
      rw [hlo, hsub, if_neg hgo]
      split
      · exact ⟨_, rfl, hres⟩
      · obtain ⟨r, hr, -, hadj⟩ := adjustRequest_spec allocEnd
          (show lo + (b.totalSize - lo) ≤ b.totalSize by lia) hd (Nat.dvd_sub b.block_dvd_total hd) hlen
        rw [hr]
        cases r with
        | error err => exact ⟨_, rfl, hres⟩
        | ok r =>
          refine ⟨_, rfl, ok_neg, ?_⟩
          intro offset len h
          have hA := hadj offset len h
          refine ⟨by have := hA.stop; lia, ?_, hA.regions⟩
          intro a ha
          rcases hall a ha with h | h
          · cases h
          · exact .inr (h.trans hA.start)
  | cons e rest ih =>
    intro last best length lo hlo _ hall hrest O hin hd hlen hbest
    have heo := hrest e (.head _)
    have hes : e.offset ≤ e.stop := Nat.le_add_right _ _
    have hei := O.inside e (.head _)
    obtain ⟨hao, hal⟩ := O.aligned e (.head _)
    obtain ⟨hafter, hpair⟩ := List.pairwise_cons.mp O.apart
    -- the search goes on behind the entry
    have hnext : ∀ (best : Option Nat) (length : Nat), 2 ^ b.blockShift ∣ length →
        (∀ offset, best = some offset → Fits b all offset length) →
        ∃ r, allocateLoop b allocEnd (some e) best length rest = some r ∧
          (∀ err, r = .error err → err < 0) ∧ ∀ offset length, r = .ok (offset, length) → Fits b all offset length := by
      intro best length hlen hbest
      refine ih (regionStartOf_some hei) (fun h => by cases h) ?_ hafter ⟨hpair, ?_, ?_⟩ hei (Nat.dvd_add hao hal) hlen hbest
      · intro a ha
        rcases hall a ha with h | h
        · rcases List.mem_cons.mp h with rfl | h
          · exact .inr (Nat.le_refl _)
          · exact .inl h
        · exact .inr (by lia)
      · exact fun a ha => O.inside a (.tail _ ha)
      · exact fun a ha => O.aligned a (.tail _ ha)
    have hsub : sub64 e.offset lo = e.offset - lo := sub64_of_le (by lia) heo
    rw [allocateLoop]
    rw [hlo, hsub, if_neg (by lia)]
    split
    · exact hnext best length hlen hbest
    · obtain ⟨r, hr, -, hadj⟩ := adjustRequest_spec allocEnd
        (show lo + (e.offset - lo) ≤ b.totalSize by lia) hd (Nat.dvd_sub hao hd) hlen
      rw [hr]
      cases r with
      | error err => exact hnext best length hlen hbest
      | ok r =>
        obtain ⟨offset, len⟩ := r
        have hA := hadj offset len rfl
        have hF : Fits b all offset len := by
          have h1 := hA.start
          have h2 := hA.stop
          refine ⟨by lia, ?_, hA.regions⟩
          intro a ha
          rcases hall a ha with h | h
          · left
            rcases List.mem_cons.mp h with rfl | h
            · lia
            · have := hafter a h
              lia
          · exact .inr (h.trans h1)
        dsimp only
        split
        · apply hnext _ _ hA.block
          intro o ho
          obtain rfl := Option.some.inj ho
          exact hF
        · refine ⟨_, rfl, ok_neg, ?_⟩
          intro o l h
          obtain ⟨rfl, rfl⟩ := Prod.mk.inj (Except.ok.inj h)
          exact hF

theorem roundup_dvd (b : Bdev) (n : Nat) : 2 ^ b.blockShift ∣ roundup64 n (2 ^ b.blockShift) := Nat.dvd_mul_left _ _

/-- **`ptable_allocate`** -/
theorem allocate_spec (O : Ordered b list) (n : Nat) (allocEnd : Bool) : ∃ r, ptableAllocate b list n allocEnd = some r ∧
    (∀ err, r = .error err → err < 0) ∧ ∀ offset length, r = .ok (offset, length) → Fits b list offset length := by
  unfold ptableAllocate
  dsimp only
  split
  · rename_i hl
    obtain ⟨r, hr, herr, hadj⟩ := adjustRequest_spec allocEnd (show 0 + b.totalSize ≤ b.totalSize by lia)
      (Nat.dvd_zero _) b.block_dvd_total (roundup_dvd b n)
    refine ⟨r, hr, herr, ?_⟩
    intro offset length h
    have hA := hadj offset length h
    refine ⟨by have := hA.stop; lia, ?_, hA.regions⟩
    intro e he
    rw [hl] at he
    cases he
  · rename_i hl
    refine allocateLoop_spec (show regionStartOf none = 0 from rfl) (fun _ => hl) (fun e he => .inl he) (fun _ _ => Nat.zero_le _) O
      (Nat.zero_le _) (Nat.dvd_zero _) (roundup_dvd b n) ?_
    intro offset h
    cases h

/-- the check of `ptable_allocate_at` against the entries -/
theorem overlapsAny_spec (h : offset + length ≤ b.totalSize) : ∀ {list : List PtableEntry}, (∀ e ∈ list, e.stop ≤ b.totalSize) →
    ∃ r, overlapsAny offset length list = some r ∧
      (r = false → 0 < length → ∀ e ∈ list, offset + length ≤ e.offset ∨ e.stop ≤ offset) := by
  intro list
  induction list with
  | nil =>
    intro _
    exact ⟨_, rfl, fun _ _ e he => by cases he⟩
  | cons a list ih =>
    intro hl
    have htotal := b.total_lt
    have ha := hl a (.head _)
    unfold PtableEntry.stop at ha
    obtain ⟨r, hr, hfree⟩ := ih fun e he => hl e (.tail _ he)
    rw [overlapsAny, bioDoesOverlap]
    rw [add64_of_inside h, add64_of_inside ha, if_neg (by omega)]
    by_cases ho : (offset ≥ a.offset ∧ offset < a.offset + a.length) ∨ (a.offset ≥ offset ∧ a.offset < offset + length)
    · rw [decide_eq_true ho]
      refine ⟨_, rfl, ?_⟩
      intro h
      cases h
    · rw [decide_eq_false ho]
      refine ⟨r, hr, ?_⟩
      intro he hpos e hm
      rcases List.mem_cons.mp hm with rfl | hm
      · unfold PtableEntry.stop
        omega
      · exact hfree he hpos e hm

/-- **`ptable_allocate_at`** -/
theorem allocateAt_spec (offset : Nat) (hl : ∀ e ∈ list, e.stop ≤ b.totalSize) (hn : n < 2 ^ 62) : ∃ r, ptableAllocateAt b list offset n = some r ∧
    (∀ err, r = .error err → err < 0) ∧ ∀ length, r = .ok length → 0 < length → Fits b list offset length := by
  have htotal := b.total_lt
  have hblock := b.block_le
  have herr : ∀ (err : Int), err < 0 → (∀ e, (Except.error err : Except Int Nat) = .error e → e < 0) ∧
      ∀ (length : Nat), (Except.error err : Except Int Nat) = .ok length → 0 < length → Fits b list offset length :=
    fun err hneg => ⟨err_neg hneg, fun _ h => by cases h⟩
  unfold ptableAllocateAt
  dsimp only
  split
  · exact ⟨_, rfl, herr _ (by decide)⟩
  rename_i ho
  split
  · exact ⟨_, rfl, herr _ (by decide)⟩
  rename_i ha
  rw [and_mask_ne, not_not] at ha
  have hr : roundup64 n (2 ^ b.blockShift) < 2 ^ 63 := by
    unfold roundup64
    refine Nat.lt_of_le_of_lt (Nat.div_mul_le_self _ _) (Nat.lt_of_le_of_lt (Nat.mod_le _ _) ?_)
    lia
  have hd := roundup_dvd b n
  generalize roundup64 n (2 ^ b.blockShift) = m at *
  rw [add64_of_lt (by lia), if_neg (by lia)]
  split
  · exact ⟨_, rfl, herr _ (by decide)⟩
  rename_i hc
  have hin : offset + m ≤ b.totalSize := by
    rw [not_not] at hc
    unfold bioContainsRange at hc
    have hc := of_decide_eq_true hc
    lia
  obtain ⟨r, hr, -, hadj⟩ := adjustRequest_spec false
    (show offset + (b.totalSize - offset) ≤ b.totalSize by lia) ha (Nat.dvd_sub b.block_dvd_total ha) hd
  rw [hr]
  cases r with
  | error err => exact ⟨_, rfl, herr _ (by decide)⟩
  | ok r =>
    obtain ⟨o, len⟩ := r
    have hA := hadj o len rfl
    dsimp only
    split
    · exact ⟨_, rfl, herr _ (by decide)⟩
    rename_i heq
    obtain rfl : o = offset := not_not.mp heq
    have hstop := hA.stop
    obtain ⟨v, hv, hfree⟩ := overlapsAny_spec (show o + len ≤ b.totalSize by lia) hl
    rw [hv]
    cases v with
    | true => exact ⟨_, rfl, herr _ (by decide)⟩
    | false =>
      refine ⟨_, rfl, ok_neg, ?_⟩
      intro length h hpos
      obtain rfl := Except.ok.inj h
      exact ⟨by lia, hfree rfl hpos, hA.regions⟩

end
end LkHv
