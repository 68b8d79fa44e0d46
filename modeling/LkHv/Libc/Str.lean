import Mathlib.Algebra.Order.Group.Nat
import Mathlib.Data.List.Basic

/-!
# Strings (`lib/libc/string`)

A pointer is the list of the bytes from it to the end of what may be read; a read behind that end gives `none`.  A
string is a list without the NUL, and lies in memory as `s ++ 0 :: t`.

* `strlen`, `memcmp`, `strstr`, `strchr`, `strncpy`   the source's;
* `strstr_spec`, `strchr_none`, `strchr_some`, `strncpy_long`, `strncpy_short`   what they do on a string;
* `strncpy_isSome`, `strncpy_length`   what `strncpy` reads and stores.

`strncpy` pads with one NUL too many: the index of its second loop is behind the pointer by one.
-/

namespace LkHv
namespace Libc

abbrev Byte := BitVec 8

/-- a number as an `int` -/
def toInt (n : Nat) : Int := (BitVec.ofNat 32 n).toInt

def strlen : List Byte → Option Nat
  | [] => none
  | b :: s => if b = 0 then some 0 else (strlen s).map (· + 1)

/-- `res` is a `signed char` -/
def memcmp : List Byte → List Byte → Nat → Option Int
  | _, _, 0 => some 0
  | a :: cs, b :: ct, n + 1 => if a - b = 0 then memcmp cs ct n else some (a - b).toInt
  | _, _, _ + 1 => none

/-- the loop of `strstr`; a match is given by its index -/
def strstrLoop (s2 : List Byte) (l2 : Int) : List Byte → Int → Option (Option Nat)
  | s1, l1 =>
    if l2 ≤ l1 then
      match memcmp s1 s2 l2.toNat with
      | none => none
      | some res =>
        if res = 0 then some (some 0)
        else
          match s1 with
          | [] => none
          | _ :: s1 => (strstrLoop s2 l2 s1 (l1 - 1)).map fun r => r.map (· + 1)
    else some none

def strstr (s1 s2 : List Byte) : Option (Option Nat) :=
  match strlen s2 with
  | none => none
  | some n2 =>
    if toInt n2 = 0 then some (some 0)
    else
      match strlen s1 with
      | none => none
      | some n1 => strstrLoop s2 (toInt n2) s1 (toInt n1)

/-- the first `c`, by its index -/
def strchr (c : Byte) : List Byte → Option (Option Nat)
  | [] => none
  | b :: s => if b = c then some (some 0) else if b = 0 then some none else (strchr c s).map fun r => r.map (· + 1)

/-- the bytes that are stored from `dest` on; behind the NUL of the source come as many as the index leaves -/
@[local grind =] def strncpy : List Byte → Nat → Option (List Byte)
  | _, 0 => some []
  | [], _ + 1 => none
  | b :: src, n + 1 => if b = 0 then some (0 :: List.replicate (n + 1) 0) else (strncpy src n).map (b :: ·)

/-! ## on strings -/

section
variable {s t : List Byte}

theorem toInt_eq {n : Nat} (h : n < 2 ^ 31) : toInt n = n := by
  have hn : (BitVec.ofNat 32 n).toNat = n := by
    rw [BitVec.toNat_ofNat]
    lia
  unfold toInt
  rw [BitVec.toInt_eq_toNat_of_lt (by rw [hn]; lia), hn]

theorem strlen_eq (h : 0 ∉ s) (t : List Byte) : strlen (s ++ 0 :: t) = some s.length := by
  induction s with
  | nil => rfl
  | cons b s ih =>
    have hb : b ≠ 0 := fun hb => h (hb ▸ List.mem_cons_self)
    rw [List.cons_append, strlen, if_neg hb, ih fun hs => h (List.mem_cons_of_mem _ hs)]
    rfl

theorem strchr_none {c : Byte} (h : 0 ∉ s) (hc : c ∉ s) (hc0 : c ≠ 0) (t : List Byte) :
    strchr c (s ++ 0 :: t) = some none := by
  induction s with
  | nil =>
    show (if 0 = c then _ else _) = _
    rw [if_neg hc0.symm]
    rfl
  | cons b s ih =>
    have hb : b ≠ 0 := fun hb => h (hb ▸ List.mem_cons_self)
    have hbc : b ≠ c := fun hb => hc (hb ▸ List.mem_cons_self)
    rw [List.cons_append, strchr, if_neg hbc, if_neg hb,
      ih (fun hs => h (List.mem_cons_of_mem _ hs)) fun hs => hc (List.mem_cons_of_mem _ hs)]
    rfl

theorem strchr_some {c : Byte} (h : 0 ∉ s) (hc : c ∉ s) (t : List Byte) :
    strchr c (s ++ c :: t) = some (some s.length) := by
  induction s with
  | nil => exact if_pos rfl
  | cons b s ih =>
    have hb : b ≠ 0 := fun hb => h (hb ▸ List.mem_cons_self)
    have hbc : b ≠ c := fun hb => hc (hb ▸ List.mem_cons_self)
    rw [List.cons_append, strchr, if_neg hbc, if_neg hb,
      ih (fun hs => h (List.mem_cons_of_mem _ hs)) fun hs => hc (List.mem_cons_of_mem _ hs)]
    rfl

/-- a source that is not shorter than the count -/
theorem strncpy_long (h : 0 ∉ s) (t : List Byte) : strncpy (s ++ t) s.length = some s := by
  induction s with
  | nil => cases t <;> rfl
  | cons b s ih =>
    have hb : b ≠ 0 := fun hb => h (hb ▸ List.mem_cons_self)
    rw [List.cons_append, List.length_cons, strncpy, if_neg hb, ih fun hs => h (List.mem_cons_of_mem _ hs)]
    rfl

/-- a shorter one; in all one byte more than the count -/
theorem strncpy_short (h : 0 ∉ s) (t : List Byte) (n : Nat) :
    strncpy (s ++ 0 :: t) (s.length + (n + 1)) = some (s ++ List.replicate (n + 2) 0) := by
  induction s with
  | nil =>
    rw [List.length_nil, Nat.zero_add]
    exact if_pos rfl
  | cons b s ih =>
    have hb : b ≠ 0 := fun hb => h (hb ▸ List.mem_cons_self)
    rw [List.cons_append, List.length_cons, show s.length + 1 + (n + 1) = s.length + (n + 1) + 1 by omega, strncpy,
      if_neg hb, ih fun hs => h (List.mem_cons_of_mem _ hs)]
    rfl

/-- it reads to the NUL, or as far as the count goes -/
theorem strncpy_isSome : ∀ {src : List Byte} {n : Nat}, (strncpy src n).isSome = true ↔ 0 ∈ src ∨ n ≤ src.length := by
  intro src
  induction src with
  | nil =>
    intro n
    cases n with
    | zero => exact ⟨fun _ => .inr (Nat.zero_le _), fun _ => rfl⟩
    | succ n => exact ⟨fun h => (nomatch h), by simp⟩
  | cons b src ih =>
    intro n
    cases n with
    | zero => exact ⟨fun _ => .inr (Nat.zero_le _), fun _ => rfl⟩
    | succ n =>
      rw [strncpy, List.mem_cons, List.length_cons, Nat.succ_le_succ_iff]
      split
      · rename_i hb
        exact ⟨fun _ => .inl (.inl hb.symm), fun _ => rfl⟩
      · rename_i hb
        rw [Option.isSome_map, ih, or_iff_right (Ne.symm hb)]

theorem strncpy_length :
    ∀ {src : List Byte} {n : Nat} {l : List Byte}, strncpy src n = some l → l.length ≤ n + 1 := by
  intro src
  induction src with
  | nil =>
    intro n l h
    cases n with
    | zero =>
      cases h
      exact Nat.zero_le _
    | succ n => cases h
  | cons b src ih =>
    intro n l h
    cases n with
    | zero =>
      cases h
      exact Nat.zero_le _
    | succ n =>
      rw [strncpy] at h
      split at h
      · cases h
        have hlen : (0 :: List.replicate (n + 1) (0 : Byte)).length = n + 1 + 1 := by
          rw [List.length_cons, List.length_replicate]
        exact Nat.le_of_eq hlen
      · obtain ⟨l, hl, rfl⟩ := Option.map_eq_some_iff.mp h
        exact Nat.succ_le_succ (ih hl)

/-! ## the search -/

/-- the comparison is total as far as both reach, and zero on a match only -/
theorem memcmp_spec : ∀ {n : Nat} {cs ct : List Byte}, n ≤ cs.length → ct.length = n →
    ∃ res, memcmp cs (ct ++ t) n = some res ∧ (res = 0 ↔ ct <+: cs) := by
  intro n
  induction n with
  | zero =>
    intro cs ct _ hct
    rw [List.length_eq_zero_iff.mp hct]
    exact ⟨0, by cases cs <;> cases t <;> rfl, fun _ => List.nil_prefix, fun _ => rfl⟩
  | succ n ih =>
    intro cs ct hcs hct
    obtain ⟨b, ct, rfl⟩ := List.exists_cons_of_length_eq_add_one hct
    obtain ⟨a, cs, rfl⟩ : ∃ a cs', cs = a :: cs' := by
      cases cs with
      | nil => exact absurd hcs (by simp)
      | cons a cs => exact ⟨a, cs, rfl⟩
    rw [List.cons_append, memcmp]
    by_cases hab : a - b = 0
    · have heq : a = b := by bv_omega
      obtain ⟨res, hr, hiff⟩ := ih (Nat.le_of_succ_le_succ hcs) (Nat.succ.inj hct)
      rw [if_pos hab, hr]
      refine ⟨res, rfl, ?_⟩
      rw [hiff, heq, List.cons_prefix_cons]
      exact ⟨fun h => ⟨rfl, h⟩, fun h => h.2⟩
    · rw [if_neg hab]
      refine ⟨_, rfl, ?_⟩
      have hres : (a - b).toInt ≠ 0 := fun h => hab (BitVec.eq_of_toInt_eq h)
      rw [List.cons_prefix_cons]
      constructor
      · exact fun h => absurd h hres
      · rintro ⟨rfl, -⟩
        exact absurd (BitVec.sub_self b) hab

/-- the first place where `p` is found in `s` -/
def FirstAt (p s : List Byte) (i : Nat) : Prop := p <+: s.drop i ∧ ∀ j < i, ¬ p <+: s.drop j

theorem FirstAt.unique {p : List Byte} {i j : Nat} (hi : FirstAt p s i) (hj : FirstAt p s j) : i = j := by
  rcases Nat.lt_trichotomy i j with h | h | h
  · exact absurd hi.1 (hj.2 i h)
  · exact h
  · exact absurd hj.1 (hi.2 j h)

/-- what a search for `p` gives -/
def Found (p s : List Byte) (r : Option Nat) : Prop :=
  match r with
  | some i => FirstAt p s i
  | none => ∀ i, ¬ p <+: s.drop i

/-- one character more, at which there is no match -/
theorem Found.cons {p : List Byte} {b : Byte} {r : Option Nat} (h : Found p s r) (hb : ¬ p <+: b :: s) :
    Found p (b :: s) (r.map (· + 1)) := by
  cases r with
  | none =>
    intro i
    cases i with
    | zero => exact hb
    | succ i => exact h i
  | some i =>
    refine ⟨h.1, fun j hj => ?_⟩
    cases j with
    | zero => exact hb
    | succ j => exact h.2 j (Nat.lt_of_succ_lt_succ hj)

theorem strstrLoop_spec {p : List Byte} (u t : List Byte) (hp : p ≠ []) :
    ∀ s : List Byte, ∃ r, strstrLoop (p ++ u) p.length (s ++ 0 :: t) s.length = some r ∧ Found p s r := by
  intro s
  induction s with
  | nil =>
    have hpos := List.length_pos_iff.mpr hp
    refine ⟨none, ?_, fun i h => ?_⟩
    · rw [strstrLoop.eq_def]
      apply if_neg
      rw [List.length_nil]
      omega
    · rw [List.drop_nil] at h
      exact hp (List.prefix_nil.mp h)
  | cons b s ih =>
    rw [List.cons_append, strstrLoop.eq_def]
    dsimp only
    by_cases hle : p.length ≤ (b :: s).length
    · rw [if_pos (Int.ofNat_le.mpr hle), Int.toNat_natCast]
      have hlong : p.length ≤ (b :: (s ++ 0 :: t)).length := by
        rw [← List.cons_append, List.length_append]
        omega
      obtain ⟨res, hr, hiff⟩ : ∃ res, memcmp (b :: (s ++ 0 :: t)) (p ++ u) p.length = some res ∧
          (res = 0 ↔ p <+: b :: (s ++ 0 :: t)) := memcmp_spec hlong rfl
      have hpre : p <+: b :: (s ++ 0 :: t) ↔ p <+: b :: s := by
        rw [← List.cons_append]
        exact ⟨fun h => List.prefix_of_prefix_length_le h (List.prefix_append _ _) hle,
          fun h => h.trans (List.prefix_append _ _)⟩
      rw [hr]
      dsimp only
      by_cases hres : res = 0
      · rw [if_pos hres]
        exact ⟨some 0, rfl, hpre.mp (hiff.mp hres), fun j hj => absurd hj (Nat.not_lt_zero j)⟩
      · obtain ⟨r, hloop, hfound⟩ := ih
        rw [if_neg hres, show (((b :: s).length : Int) - 1) = s.length by rw [List.length_cons]; omega, hloop]
        exact ⟨_, rfl, hfound.cons fun h => hres (hiff.mpr (hpre.mpr h))⟩
    · rw [if_neg fun h => hle (Int.ofNat_le.mp h)]
      refine ⟨none, rfl, fun i h => hle ?_⟩
      have h1 := h.length_le
      rw [List.length_drop] at h1
      omega

/-- **`strstr`** finds the first place, and reads no byte behind the NUL. -/
theorem strstr_spec {p : List Byte} (u t : List Byte) (hp : p ≠ []) (hp0 : 0 ∉ p) (hs0 : 0 ∉ s)
    (hlen : p.length < 2 ^ 31) (hslen : s.length < 2 ^ 31) :
    ∃ r, strstr (s ++ 0 :: t) (p ++ 0 :: u) = some r ∧ Found p s r := by
  have hpos := List.length_pos_iff.mpr hp
  obtain ⟨r, hr, hf⟩ := strstrLoop_spec (0 :: u) t hp s
  refine ⟨r, ?_, hf⟩
  unfold strstr
  rw [strlen_eq hp0]
  dsimp only
  rw [toInt_eq hlen, if_neg (by omega), strlen_eq hs0]
  dsimp only
  rw [toInt_eq hslen, hr]

end

end Libc
end LkHv
