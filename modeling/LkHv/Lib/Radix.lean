import Mathlib.Algebra.Order.Group.Nat

/-!
# Radix tables

Translation by tables of `B` entries: a key `k` is looked up from a table of level `l` by its digits
`k / B^l % B`, `k / B^(l-1) % B`, ..., until an entry is a leaf, is empty, or the levels end.  The
store `V l f i` is what entry `i` of table `f` means when it is read as an entry of level `l`.

* `walk`           the lookup; a leaf found at level `l` gives `(l, payload)`;
* `slot`           the table of level `d` that the lookup of a key passes through;
* `Forest lab V`   every table carries one label `(tree, level, prefix)` and every child entry points
                   to a table labelled with the prefix it covers, so no table is shared;
* `walk_frame`     a write to a labelled table changes the lookup of the keys of that one entry only;
* `slot_frame`     a write at or below level `d`, or in another tree, leaves the tables of level `d`;
* `walk_install`, `slot_install`, `Forest.install`   linking a fresh empty table changes no lookup.
-/

universe u v w

namespace Radix

/-- what an entry means -/
inductive View (F : Type u) (P : Type v) where
  | empty
  | table (f : F)
  | leaf (p : P)

abbrev Store (F : Type u) (P : Type v) := Nat → F → Nat → View F P

section defs
variable {F : Type u} {P : Type v} (B : Nat)

/-- the digit of `k` at level `l` -/
def digit (l k : Nat) : Nat := k / B ^ l % B

/-- lookup of the key `k` from the table `f` of level `l` -/
def walk (V : Store F P) : Nat → F → Nat → Option (Nat × P)
  | 0, f, k =>
    match V 0 f (digit B 0 k) with
    | .leaf p => some (0, p)
    | _ => none
  | l + 1, f, k =>
    match V (l + 1) f (digit B (l + 1) k) with
    | .leaf p => some (l + 1, p)
    | .table g => walk V l g k
    | .empty => none

/-- the table of level `d` on the path of `k` from the table `f` of level `l` -/
@[local grind =] def slot (V : Store F P) (d : Nat) : Nat → F → Nat → Option F
  | 0, f, _ => if 0 = d then some f else none
  | l + 1, f, k =>
    if l + 1 = d then some f else
      match V (l + 1) f (digit B (l + 1) k) with
      | .table g => slot V d l g k
      | _ => none

end defs

/-- the label of a table: its tree, its level and the keys it covers (those with `k / B^(l+1)` equal
to the prefix) -/
structure Label (T : Type w) where
  tree : T
  level : Nat
  pfx : Nat

section
variable {F : Type u} {P : Type v} {T : Type w} {B : Nat} {V V' : Store F P}

theorem digit_lt (hB : 0 < B) (l k : Nat) : digit B l k < B := Nat.mod_lt _ hB

/-- the digits of a key below its prefix -/
theorem div_eq_pfx (l k : Nat) : k / B ^ l = k / B ^ (l + 1) * B + digit B l k := by
  rw [digit, Nat.pow_succ, ← Nat.div_div_eq_div_mul, Nat.mul_comm, Nat.div_add_mod]

theorem div_pow_of_le {l d k k' : Nat} (h : k / B ^ d = k' / B ^ d) (hd : d ≤ l) : k / B ^ l = k' / B ^ l := by
  have e : B ^ l = B ^ d * B ^ (l - d) := by rw [← Nat.pow_add]; congr 1; omega
  rw [e, ← Nat.div_div_eq_div_mul, ← Nat.div_div_eq_div_mul, h]

theorem digit_congr {l d k k' : Nat} (h : k / B ^ d = k' / B ^ d) (hd : d ≤ l) : digit B l k = digit B l k' := by
  rw [digit, digit, div_pow_of_le h hd]

/-! ## the path of a key -/

theorem slot_self (l : Nat) (f : F) (k : Nat) : slot B V l l f k = some f := by
  cases l <;> simp [slot]

theorem slot_step {d l : Nat} (h : l + 1 ≠ d) (f : F) (k : Nat) :
    slot B V d (l + 1) f k = match V (l + 1) f (digit B (l + 1) k) with
      | .table g => slot B V d l g k
      | _ => none := by
  rw [slot, if_neg h]

/-- a path does not climb -/
theorem slot_above {d : Nat} : ∀ {l : Nat} {f : F} {k : Nat}, l < d → slot B V d l f k = none := by
  intro l
  induction l with
  | zero =>
    intro f k h
    rw [slot, if_neg (by lia)]
  | succ l ih =>
    intro f k h
    rw [slot_step (by lia)]
    split
    · exact ih (by lia)
    · rfl

/-- the lookup goes on from the table the path reaches -/
theorem walk_of_slot {d : Nat} : ∀ {l : Nat} {f g : F} {k : Nat}, slot B V d l f k = some g →
    walk B V l f k = walk B V d g k := by
  intro l
  induction l with
  | zero =>
    intro f g k h
    rw [slot] at h
    split at h
    · rename_i e
      cases h
      rw [← e]
    · cases h
  | succ l ih =>
    intro f g k h
    by_cases e : l + 1 = d
    · rw [slot, if_pos e] at h
      cases h
      rw [← e]
    · rw [slot_step e] at h
      rw [walk]
      split at h
      · rename_i g' hv
        rw [hv]
        exact ih h
      · cases h

/-- the path goes on from the table of level `e` it passes through -/
theorem slot_of_slot {d e : Nat} (hd : d ≤ e) : ∀ {l : Nat} {f g : F} {k : Nat}, e ≤ l →
    slot B V e l f k = some g → slot B V d l f k = slot B V d e g k := by
  intro l
  induction l with
  | zero =>
    intro f g k he h
    rw [slot] at h
    split at h
    · rename_i e0
      cases h
      rw [← e0]
    · cases h
  | succ l ih =>
    intro f g k he h
    by_cases e' : l + 1 = e
    · rw [slot, if_pos e'] at h
      cases h
      rw [e']
    · rw [slot_step e'] at h
      rw [slot_step (by lia)]
      split at h
      · exact ih (by lia) h
      · cases h

theorem slot_congr {d : Nat} : ∀ {l : Nat} {f : F} {k k' : Nat}, d ≤ l →
    k / B ^ (d + 1) = k' / B ^ (d + 1) → slot B V d l f k = slot B V d l f k' := by
  intro l
  induction l with
  | zero =>
    intro f k k' _ _
    rfl
  | succ l ih =>
    intro f k k' hd h
    by_cases e : l + 1 = d
    · rw [slot, if_pos e, slot, if_pos e]
    · rw [slot_step e, slot_step e, digit_congr h (by lia)]
      split
      · exact ih (by lia) h
      · rfl

/-! ## forests -/

/-- every table a child entry points to carries the label of the keys it covers -/
def Forest (B : Nat) (lab : F → Option (Label T)) (V : Store F P) : Prop :=
  ∀ f t l p i g, lab f = some ⟨t, l + 1, p⟩ → i < B → V (l + 1) f i = .table g → lab g = some ⟨t, l, p * B + i⟩

variable {lab : F → Option (Label T)}

theorem Forest.child (h : Forest B lab V) (hB : 0 < B) {f g : F} {t : T} {l k : Nat}
    (hf : lab f = some ⟨t, l + 1, k / B ^ (l + 1 + 1)⟩)
    (hg : V (l + 1) f (digit B (l + 1) k) = .table g) : lab g = some ⟨t, l, k / B ^ (l + 1)⟩ := by
  rw [div_eq_pfx (l + 1) k]
  exact h f t l _ _ g hf (digit_lt hB _ _) hg

theorem Forest.slot_lab (h : Forest B lab V) (hB : 0 < B) {t : T} {d : Nat} :
    ∀ {l : Nat} {f g : F} {k : Nat}, lab f = some ⟨t, l, k / B ^ (l + 1)⟩ →
      slot B V d l f k = some g → lab g = some ⟨t, d, k / B ^ (d + 1)⟩ := by
  intro l
  induction l with
  | zero =>
    intro f g k hf hs
    rw [slot] at hs
    split at hs
    · rename_i e
      cases hs
      rw [← e]
      exact hf
    · cases hs
  | succ l ih =>
    intro f g k hf hs
    by_cases e : l + 1 = d
    · rw [slot, if_pos e] at hs
      cases hs
      rw [← e]
      exact hf
    · rw [slot_step e] at hs
      split at hs
      · rename_i g' hv
        exact ih (h.child hB hf hv) hs
      · cases hs

/-! ## changes outside the labelled tables -/

/-- the stores agree on the labelled tables -/
def AgreeOn (B : Nat) (lab : F → Option (Label T)) (V V' : Store F P) : Prop :=
  ∀ l f j, j < B → lab f ≠ none → V' l f j = V l f j

theorem Forest.agree (h : Forest B lab V) (hV : AgreeOn B lab V V') : Forest B lab V' := by
  intro f t l p i g hf hi hg
  rw [hV _ _ _ hi (by simp [hf])] at hg
  exact h f t l p i g hf hi hg

theorem walk_agree (h : Forest B lab V) (hB : 0 < B) (hV : AgreeOn B lab V V') {t : T} :
    ∀ {l : Nat} {f : F} {k : Nat}, lab f = some ⟨t, l, k / B ^ (l + 1)⟩ → walk B V' l f k = walk B V l f k := by
  intro l
  induction l with
  | zero =>
    intro f k hf
    rw [walk, walk, hV _ _ _ (digit_lt hB _ _) (by simp [hf])]
  | succ l ih =>
    intro f k hf
    rw [walk, walk, hV _ _ _ (digit_lt hB _ _) (by simp [hf])]
    split
    · rfl
    · rename_i g hv
      exact ih (h.child hB hf hv)
    · rfl

theorem slot_agree (h : Forest B lab V) (hB : 0 < B) (hV : AgreeOn B lab V V') {t : T} {d : Nat} :
    ∀ {l : Nat} {f : F} {k : Nat}, lab f = some ⟨t, l, k / B ^ (l + 1)⟩ → slot B V' d l f k = slot B V d l f k := by
  intro l
  induction l with
  | zero =>
    intro f k _
    rfl
  | succ l ih =>
    intro f k hf
    by_cases e : l + 1 = d
    · rw [slot, if_pos e, slot, if_pos e]
    · rw [slot_step e, slot_step e, hV _ _ _ (digit_lt hB _ _) (by simp [hf])]
      split
      · rename_i g hv
        exact ih (h.child hB hf hv)
      · rfl

/-! ## writing one entry -/

/-- the stores agree outside entry `i` of table `f` -/
def AgreeOff (B : Nat) (V V' : Store F P) (f : F) (i : Nat) : Prop :=
  ∀ l g j, j < B → ¬ (g = f ∧ j = i) → V' l g j = V l g j

/-- **Frame rule.**  A write to entry `i₀` of a labelled table leaves every lookup alone that does not
pass through that entry. -/
theorem walk_frame (h : Forest B lab V) (hB : 0 < B) {f₀ : F} {i₀ : Nat} {t₀ : T} {l₀ p₀ : Nat}
    (h₀ : lab f₀ = some ⟨t₀, l₀, p₀⟩) (hV : AgreeOff B V V' f₀ i₀) {t : T} :
    ∀ {l : Nat} {f : F} {k : Nat}, lab f = some ⟨t, l, k / B ^ (l + 1)⟩ →
      (t = t₀ → k / B ^ l₀ ≠ p₀ * B + i₀) → walk B V' l f k = walk B V l f k := by
  have off : ∀ {l : Nat} {f : F} {k : Nat}, lab f = some ⟨t, l, k / B ^ (l + 1)⟩ →
      (t = t₀ → k / B ^ l₀ ≠ p₀ * B + i₀) →
      V' l f (digit B l k) = V l f (digit B l k) := by
    intro l f k hf hk
    apply hV _ _ _ (digit_lt hB _ _)
    rintro ⟨rfl, e⟩
    rw [h₀] at hf
    cases hf
    exact hk rfl (by rw [div_eq_pfx, e])
  intro l
  induction l with
  | zero =>
    intro f k hf hk
    rw [walk, walk, off hf hk]
  | succ l ih =>
    intro f k hf hk
    rw [walk, walk, off hf hk]
    split
    · rfl
    · rename_i g hv
      exact ih (h.child hB hf hv) hk
    · rfl

/-- A write to a table of another tree, or of a level `l₀ ≤ d`, leaves the path down to level `d` alone. -/
theorem slot_frame (h : Forest B lab V) (hB : 0 < B) {f₀ : F} {i₀ : Nat} {t₀ : T} {l₀ p₀ d : Nat}
    (h₀ : lab f₀ = some ⟨t₀, l₀, p₀⟩) (hV : AgreeOff B V V' f₀ i₀) {t : T} (hd : t = t₀ → l₀ ≤ d) :
    ∀ {l : Nat} {f : F} {k : Nat}, d ≤ l → lab f = some ⟨t, l, k / B ^ (l + 1)⟩ →
      slot B V' d l f k = slot B V d l f k := by
  intro l
  induction l with
  | zero =>
    intro f k _ _
    rfl
  | succ l ih =>
    intro f k hdl hf
    by_cases e : l + 1 = d
    · rw [slot, if_pos e, slot, if_pos e]
    · have hv : V' (l + 1) f (digit B (l + 1) k) = V (l + 1) f (digit B (l + 1) k) := by
        apply hV _ _ _ (digit_lt hB _ _)
        rintro ⟨rfl, -⟩
        rw [h₀] at hf
        cases hf
        have := hd rfl
        lia
      rw [slot_step e, slot_step e, hv]
      split
      · rename_i g hg
        exact ih (by lia) (h.child hB hf hg)
      · rfl

/-- writing an entry that is no child pointer keeps the forest -/
theorem Forest.write (h : Forest B lab V) {f₀ : F} {i₀ : Nat} (hV : AgreeOff B V V' f₀ i₀) {t₀ : T} {l₀ p₀ : Nat}
    (h₀ : lab f₀ = some ⟨t₀, l₀, p₀⟩) (hn : ∀ g, V' l₀ f₀ i₀ ≠ .table g) : Forest B lab V' := by
  intro f t l p i g hf hi hg
  by_cases e : f = f₀ ∧ i = i₀
  · obtain ⟨rfl, rfl⟩ := e
    rw [h₀] at hf
    cases hf
    exact absurd hg (hn g)
  · rw [hV _ _ _ hi e] at hg
    exact h f t l p i g hf hi hg

/-! ## linking a fresh table -/

/-- `V'` is `V` with the empty table `g` linked at entry `i` of the table `f` of level `l + 1` -/
structure Installs (B : Nat) (V V' : Store F P) (l : Nat) (f : F) (i : Nat) (g : F) : Prop where
  was : V (l + 1) f i = .empty
  now : V' (l + 1) f i = .table g
  clear : ∀ m j, j < B → V' m g j = .empty
  same : ∀ m h j, j < B → h ≠ g → ¬ (h = f ∧ j = i) → V' m h j = V m h j

variable [DecidableEq F]

theorem Forest.install (h : Forest B lab V) {l : Nat} {f g : F} {i : Nat} {t : T} {p : Nat}
    (hf : lab f = some ⟨t, l + 1, p⟩) (hg : lab g = none) (hV : Installs B V V' l f i g) :
    Forest B (Function.update lab g (some ⟨t, l, p * B + i⟩)) V' := by
  have hfg : f ≠ g := by rintro rfl; rw [hg] at hf; cases hf
  intro f' t' l' p' i' g' hf' hi' hg'
  by_cases e : f' = g
  · rw [e, hV.clear _ _ hi'] at hg'
    cases hg'
  · rw [Function.update_of_ne e] at hf'
    by_cases e' : f' = f ∧ i' = i
    · obtain ⟨rfl, rfl⟩ := e'
      rw [hf] at hf'
      cases hf'
      rw [hV.now] at hg'
      cases hg'
      rw [Function.update_self]
    · rw [hV.same _ _ _ hi' e e'] at hg'
      have hc := h f' t' l' p' i' g' hf' hi' hg'
      rw [Function.update_of_ne (by rintro rfl; rw [hg] at hc; cases hc)]
      exact hc

omit [DecidableEq F] in
/-- **Linking a fresh empty table changes no lookup.** -/
theorem walk_install (h : Forest B lab V) (hB : 0 < B) {l₀ : Nat} {f₀ g₀ : F} {i₀ : Nat} {t₀ : T}
    {p₀ : Nat} (hf₀ : lab f₀ = some ⟨t₀, l₀ + 1, p₀⟩) (hg₀ : lab g₀ = none)
    (hV : Installs B V V' l₀ f₀ i₀ g₀) {t : T} : ∀ {l : Nat} {f : F} {k : Nat}, lab f = some ⟨t, l, k / B ^ (l + 1)⟩ →
      walk B V' l f k = walk B V l f k := by
  have hne : ∀ {f : F} {x : Label T}, lab f = some x → f ≠ g₀ := by
    rintro f x hf rfl
    rw [hg₀] at hf
    cases hf
  have fresh : ∀ m k, walk B V' m g₀ k = none := by
    intro m k
    cases m <;> rw [walk, hV.clear _ _ (digit_lt hB _ _)]
  intro l
  induction l with
  | zero =>
    intro f k hf
    rw [walk, walk, hV.same _ _ _ (digit_lt hB _ _) (hne hf)]
    rintro ⟨rfl, -⟩
    rw [hf₀] at hf
    cases hf
  | succ l ih =>
    intro f k hf
    by_cases e : f = f₀ ∧ digit B (l + 1) k = i₀
    · obtain ⟨rfl, rfl⟩ := e
      rw [hf₀] at hf
      cases hf
      rw [walk, walk, hV.was, hV.now]
      exact fresh _ _
    · rw [walk, walk, hV.same _ _ _ (digit_lt hB _ _) (hne hf) e]
      split
      · rfl
      · rename_i g hv
        exact ih (h.child hB hf hv)
      · rfl

omit [DecidableEq F] in
/-- Linking a fresh empty table moves no table that was there. -/
theorem slot_install (h : Forest B lab V) (hB : 0 < B) {l₀ : Nat} {f₀ g₀ : F} {i₀ : Nat} {t₀ : T}
    {p₀ : Nat} (hf₀ : lab f₀ = some ⟨t₀, l₀ + 1, p₀⟩) (hg₀ : lab g₀ = none)
    (hV : Installs B V V' l₀ f₀ i₀ g₀) {t : T} {d : Nat} :
    ∀ {l : Nat} {f g : F} {k : Nat}, lab f = some ⟨t, l, k / B ^ (l + 1)⟩ →
      slot B V d l f k = some g → slot B V' d l f k = some g := by
  intro l
  induction l with
  | zero =>
    intro f g k _ hs
    exact hs
  | succ l ih =>
    intro f g k hf hs
    by_cases e : l + 1 = d
    · rw [slot, if_pos e] at hs ⊢
      exact hs
    · rw [slot_step e] at hs ⊢
      split at hs
      · rename_i g' hv
        have hv' : V' (l + 1) f (digit B (l + 1) k) = .table g' := by
          rw [hV.same _ _ _ (digit_lt hB _ _), hv]
          · rintro rfl
            rw [hg₀] at hf
            cases hf
          · rintro ⟨rfl, e'⟩
            rw [hf₀] at hf
            cases hf
            rw [e', hV.was] at hv
            cases hv
        rw [hv']
        exact ih (h.child hB hf hv) hs
      · cases hs

end

end Radix
