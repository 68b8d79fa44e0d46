import LkHv.Lib.Radix

/-!
# Radix trees that grow and shrink

A forest of radix tables in which every labelled table is linked: the lookup of the keys it covers passes
through it.  The keys are the units of an address range; an entry of level `l` covers `B ^ l` of them.

* `Linked`        every labelled table is on the path from its root;
* `Linked.walk`, `Linked.inj`   the lookup of a key goes on from the table that covers it, and there is one;
* `walk_clear`, `Linked.clear`  an entry that is no child pointer is cleared;
* `walk_put`      a leaf is written to an empty entry;
* `Unlinks`       an empty table is unlinked, which changes no lookup;
* `Touches`, `cut`, `cut_add`   the lookups without the leaves that meet a range;
* `walk_clear_cut`   an entry cleared is such a cut.
-/

universe u v w

namespace Radix

section
variable {F : Type u} {P : Type v} {T : Type w} {B : Nat} {V V' : Store F P} {lab : F → Option (Label T)}
  {top : Nat} {root : T → F}

/-- every labelled table is on the path from the root of its tree to the keys it covers -/
def Linked (B : Nat) (lab : F → Option (Label T)) (V : Store F P) (top : Nat) (root : T → F) : Prop :=
  ∀ g t l p, lab g = some ⟨t, l, p⟩ →
    p * B ^ (l + 1) / B ^ (top + 1) = 0 ∧ l ≤ top ∧ slot B V l top (root t) (p * B ^ (l + 1)) = some g

theorem entry_div (hB : 0 < B) {p i : Nat} (hi : i < B) : (p * B + i) / B = p := by
  rw [Nat.mul_comm, Nat.mul_add_div hB, Nat.div_eq_of_lt hi, Nat.add_zero]

theorem entry_mod {p i : Nat} (hi : i < B) : (p * B + i) % B = i := by
  rw [Nat.mul_comm, Nat.mul_add_mod, Nat.mod_eq_of_lt hi]

/-- the keys of entry `i` of the table with prefix `p` -/
theorem entry_key (hB : 0 < B) {n k p i : Nat} (hi : i < B) (e : k / B ^ n = p * B + i) :
    k / B ^ (n + 1) = p ∧ digit B n k = i := by
  rw [Nat.pow_succ, ← Nat.div_div_eq_div_mul, digit, e]
  exact ⟨entry_div hB hi, entry_mod hi⟩

theorem Linked.slot (hl : Linked B lab V top root) (hB : 0 < B) {g : F} {t : T} {l k : Nat}
    (hg : lab g = some ⟨t, l, k / B ^ (l + 1)⟩) : slot B V l top (root t) k = some g := by
  obtain ⟨-, h1, h2⟩ := hl g t l _ hg
  rw [← h2]
  apply slot_congr h1
  rw [Nat.mul_div_cancel _ (Nat.pow_pos hB)]

/-- the keys that a labelled table covers are keys of its tree -/
theorem Linked.covered (hl : Linked B lab V top root) (hB : 0 < B) {g : F} {t : T} {l k : Nat}
    (hg : lab g = some ⟨t, l, k / B ^ (l + 1)⟩) : k / B ^ (top + 1) = 0 := by
  obtain ⟨h0, h1, -⟩ := hl g t l _ hg
  rw [← h0]
  refine div_pow_of_le (d := l + 1) ?_ (by omega)
  rw [Nat.mul_div_cancel _ (Nat.pow_pos hB)]

theorem Linked.walk (hl : Linked B lab V top root) (hB : 0 < B) {g : F} {t : T} {l k : Nat}
    (hg : lab g = some ⟨t, l, k / B ^ (l + 1)⟩) : walk B V top (root t) k = walk B V l g k :=
  walk_of_slot (hl.slot hB hg)

/-- a label names one table -/
theorem Linked.inj (hl : Linked B lab V top root) {g g' : F} {x : Label T} (hg : lab g = some x)
    (hg' : lab g' = some x) : g = g' := by
  have h := (hl g x.tree x.level x.pfx hg).2.2
  rw [(hl g' x.tree x.level x.pfx hg').2.2] at h
  exact (Option.some.inj h).symm

/-! ## leaves -/

theorem walk_le {l m k : Nat} {f : F} {q : P} (h : walk B V l f k = some (m, q)) : m ≤ l := by
  induction l generalizing f with
  | zero =>
    rw [Radix.walk] at h
    split at h
    · cases h
      exact le_rfl
    · cases h
  | succ l ih =>
    rw [Radix.walk] at h
    split at h
    · cases h
      exact le_rfl
    · exact Nat.le_succ_of_le (ih h)
    · cases h

/-- a leaf is the leaf of all the keys it covers -/
theorem walk_leaf_congr {l m k k' : Nat} {f : F} {q : P} (h : walk B V l f k = some (m, q))
    (hk : k / B ^ m = k' / B ^ m) : walk B V l f k' = some (m, q) := by
  induction l generalizing f with
  | zero =>
    have hm : m = 0 := Nat.le_zero.mp (walk_le h)
    subst hm
    rw [Radix.walk] at h ⊢
    rw [← digit_congr hk le_rfl]
    exact h
  | succ l ih =>
    have hm := walk_le h
    rw [Radix.walk] at h ⊢
    rw [← digit_congr hk hm]
    split at h
    · exact h
    · exact ih h
    · cases h

/-! ## an entry that is no child pointer -/

/-- the path to a table does not use an entry that is no child pointer -/
theorem slot_write (h : Forest B lab V) (hB : 0 < B) {f₀ : F} {i₀ : Nat} {t₀ : T} {l₀ p₀ d : Nat}
    (h₀ : lab f₀ = some ⟨t₀, l₀, p₀⟩) (hn : ∀ g, V l₀ f₀ i₀ ≠ .table g) (hV : AgreeOff B V V' f₀ i₀) {t : T} :
    ∀ {l : Nat} {f g : F} {k : Nat}, lab f = some ⟨t, l, k / B ^ (l + 1)⟩ →
      slot B V d l f k = some g → slot B V' d l f k = some g := by
  intro l
  induction l with
  | zero =>
    intro f g k _ hs
    exact hs
  | succ l ih =>
    intro f g k hf hs
    by_cases e : l + 1 = d
    · rw [Radix.slot, if_pos e] at hs ⊢
      exact hs
    · rw [slot_step e] at hs ⊢
      split at hs
      · rename_i g' hv
        have hoff : ¬ (f = f₀ ∧ digit B (l + 1) k = i₀) := by
          rintro ⟨rfl, rfl⟩
          rw [h₀] at hf
          cases hf
          exact hn g' hv
        rw [hV _ _ _ (digit_lt hB _ _) hoff, hv]
        exact ih (h.child hB hf hv) hs
      · cases hs

theorem Linked.write (hl : Linked B lab V top root) (h : Forest B lab V) (hB : 0 < B)
    (hroot : ∀ t, lab (root t) = some ⟨t, top, 0⟩) {f₀ : F} {i₀ : Nat} {t₀ : T} {l₀ p₀ : Nat}
    (h₀ : lab f₀ = some ⟨t₀, l₀, p₀⟩) (hn : ∀ g, V l₀ f₀ i₀ ≠ .table g) (hV : AgreeOff B V V' f₀ i₀) :
    Linked B lab V' top root := by
  intro g t l p hg
  obtain ⟨h1, h2, h3⟩ := hl g t l p hg
  have hf : lab (root t) = some ⟨t, top, p * B ^ (l + 1) / B ^ (top + 1)⟩ := by rw [hroot, h1]
  exact ⟨h1, h2, slot_write h hB h₀ hn hV hf h3⟩

/-- **Clearing.**  The keys of the entry are no longer found. -/
theorem walk_clear (hl : Linked B lab V top root) (h : Forest B lab V) (hB : 0 < B)
    (hroot : ∀ t, lab (root t) = some ⟨t, top, 0⟩) {f : F} {i : Nat} {t : T} {n p : Nat}
    (hf : lab f = some ⟨t, n, p⟩) (hi : i < B) (hn : ∀ g, V n f i ≠ .table g) (hV : AgreeOff B V V' f i)
    (he : V' n f i = .empty) {k : Nat} (hk : k / B ^ (top + 1) = 0) :
    walk B V' top (root t) k = if k / B ^ n = p * B + i then none else walk B V top (root t) k := by
  split
  · rename_i e
    obtain ⟨h1, h2⟩ := entry_key hB hi e
    rw [(hl.write h hB hroot hf hn hV).walk hB (by rw [h1]; exact hf)]
    cases n with
    | zero => rw [Radix.walk, h2, he]
    | succ n => rw [Radix.walk, h2, he]
  · rename_i e
    exact walk_frame h hB hf hV (by rw [hroot, hk]) fun _ => e

/-- **Writing a leaf** to an empty entry -/
theorem walk_put (hl : Linked B lab V top root) (h : Forest B lab V) (hB : 0 < B)
    (hroot : ∀ t, lab (root t) = some ⟨t, top, 0⟩) {f : F} {i : Nat} {t : T} {n p : Nat} {q : P}
    (hf : lab f = some ⟨t, n, p⟩) (hi : i < B) (hw : V n f i = .empty) (hV : AgreeOff B V V' f i)
    (he : V' n f i = .leaf q) {k : Nat} (hk : k / B ^ (top + 1) = 0) :
    walk B V' top (root t) k = if k / B ^ n = p * B + i then some (n, q) else walk B V top (root t) k := by
  have hn : ∀ g, V n f i ≠ .table g := by
    intro g e
    rw [hw] at e
    cases e
  split
  · rename_i e
    obtain ⟨h1, h2⟩ := entry_key hB hi e
    rw [(hl.write h hB hroot hf hn hV).walk hB (by rw [h1]; exact hf)]
    cases n with
    | zero => rw [Radix.walk, h2, he]
    | succ n => rw [Radix.walk, h2, he]
  · rename_i e
    exact walk_frame h hB hf hV (by rw [hroot, hk]) fun _ => e

/-! ## linking and unlinking an empty table -/

variable [DecidableEq F]

theorem Linked.install (hl : Linked B lab V top root) (h : Forest B lab V) (hB : 0 < B)
    (hroot : ∀ t, lab (root t) = some ⟨t, top, 0⟩) {l : Nat} {f g : F} {i : Nat} {t : T} {p : Nat} (hi : i < B)
    (hf : lab f = some ⟨t, l + 1, p⟩) (hg : lab g = none) (hV : Installs B V V' l f i g) :
    Linked B (Function.update lab g (some ⟨t, l, p * B + i⟩)) V' top root := by
  intro g' t' l' p' hg'
  by_cases e : g' = g
  · rw [e, Function.update_self] at hg'
    cases hg'
    obtain ⟨h1, h2, h3⟩ := hl f t (l + 1) p hf
    obtain ⟨hk, hd⟩ := entry_key hB (n := l + 1) hi (Nat.mul_div_cancel (p * B + i) (Nat.pow_pos hB))
    have hf' : lab f = some ⟨t, l + 1, (p * B + i) * B ^ (l + 1) / B ^ (l + 1 + 1)⟩ := by rw [hk, hf]
    have hc := hl.covered hB hf'
    refine ⟨hc, by lia, ?_⟩
    have hs : Radix.slot B V' (l + 1) top (root t) ((p * B + i) * B ^ (l + 1)) = some f :=
      slot_install h hB hf hg hV (t := t) (by rw [hroot, hc]) (hl.slot hB hf')
    rw [e, slot_of_slot (Nat.le_succ l) h2 hs, slot_step (by lia), hd, hV.now]
    exact slot_self l g _
  · rw [Function.update_of_ne e] at hg'
    obtain ⟨h1, h2, h3⟩ := hl g' t' l' p' hg'
    exact ⟨h1, h2, slot_install h hB hf hg hV (t := t') (by rw [hroot, h1]) h3⟩

/-- `V'` is `V` with the empty table `g` unlinked from entry `i` of the table `f` of level `l + 1` -/
structure Unlinks (B : Nat) (V V' : Store F P) (l : Nat) (f : F) (i : Nat) (g : F) : Prop where
  was : V (l + 1) f i = .table g
  now : ∀ m, V' m f i = .empty
  clear : ∀ m j, j < B → V m g j = .empty
  same : AgreeOff B V V' f i

omit [DecidableEq F] in
theorem walk_empty (hB : 0 < B) {g : F} (hg : ∀ m j, j < B → V m g j = .empty) (l k : Nat) :
    walk B V l g k = none := by
  cases l with
  | zero => rw [Radix.walk, hg _ _ (digit_lt hB _ _)]
  | succ l => rw [Radix.walk, hg _ _ (digit_lt hB _ _)]

omit [DecidableEq F] in
/-- a path ends in a table without entries -/
theorem slot_empty (hB : 0 < B) {g g' : F} (hg : ∀ m j, j < B → V m g j = .empty) {d l k : Nat}
    (hs : slot B V d l g k = some g') : g' = g := by
  cases l with
  | zero =>
    rw [Radix.slot] at hs
    split at hs
    · exact (Option.some.inj hs).symm
    · cases hs
  | succ l =>
    by_cases e : l + 1 = d
    · rw [Radix.slot, if_pos e] at hs
      exact (Option.some.inj hs).symm
    · rw [slot_step e, hg _ _ (digit_lt hB _ _)] at hs
      cases hs

omit [DecidableEq F] in
theorem walk_unlink (h : Forest B lab V) (hB : 0 < B) {l₀ : Nat} {f₀ g₀ : F} {i₀ : Nat} {t₀ : T} {p₀ : Nat}
    (hf₀ : lab f₀ = some ⟨t₀, l₀ + 1, p₀⟩) (hV : Unlinks B V V' l₀ f₀ i₀ g₀) {t : T} :
    ∀ {l : Nat} {f : F} {k : Nat}, lab f = some ⟨t, l, k / B ^ (l + 1)⟩ → walk B V' l f k = walk B V l f k := by
  intro l
  induction l with
  | zero =>
    intro f k hf
    have hoff : ¬ (f = f₀ ∧ digit B 0 k = i₀) := by
      rintro ⟨rfl, -⟩
      rw [hf₀] at hf
      cases hf
    rw [Radix.walk, Radix.walk, hV.same _ _ _ (digit_lt hB _ _) hoff]
  | succ l ih =>
    intro f k hf
    by_cases e : f = f₀ ∧ digit B (l + 1) k = i₀
    · obtain ⟨rfl, rfl⟩ := e
      rw [hf₀] at hf
      cases hf
      rw [Radix.walk, Radix.walk, hV.was, hV.now]
      exact (walk_empty hB hV.clear _ _).symm
    · rw [Radix.walk, Radix.walk, hV.same _ _ _ (digit_lt hB _ _) e]
      split
      · rfl
      · rename_i g hv
        exact ih (h.child hB hf hv)
      · rfl

omit [DecidableEq F] in
theorem slot_unlink (h : Forest B lab V) (hB : 0 < B) {l₀ : Nat} {f₀ g₀ : F} {i₀ : Nat} {t₀ : T} {p₀ : Nat}
    (hf₀ : lab f₀ = some ⟨t₀, l₀ + 1, p₀⟩) (hV : Unlinks B V V' l₀ f₀ i₀ g₀) {t : T} {d : Nat} :
    ∀ {l : Nat} {f g : F} {k : Nat}, g ≠ g₀ → lab f = some ⟨t, l, k / B ^ (l + 1)⟩ →
      slot B V d l f k = some g → slot B V' d l f k = some g := by
  intro l
  induction l with
  | zero =>
    intro f g k _ _ hs
    exact hs
  | succ l ih =>
    intro f g k hg hf hs
    by_cases e : l + 1 = d
    · rw [Radix.slot, if_pos e] at hs ⊢
      exact hs
    · rw [slot_step e] at hs ⊢
      by_cases e' : f = f₀ ∧ digit B (l + 1) k = i₀
      · obtain ⟨rfl, rfl⟩ := e'
        rw [hf₀] at hf
        cases hf
        rw [hV.was] at hs
        exact absurd (slot_empty hB hV.clear hs) hg
      · rw [hV.same _ _ _ (digit_lt hB _ _) e']
        split at hs
        · rename_i g' hv
          exact ih hg (h.child hB hf hv) hs
        · cases hs

theorem Forest.unlink (h : Forest B lab V) (hl : Linked B lab V top root) {l : Nat} {f g : F} {i : Nat} {t : T}
    {p : Nat} (hi : i < B) (hf : lab f = some ⟨t, l + 1, p⟩) (hV : Unlinks B V V' l f i g) :
    Forest B (Function.update lab g none) V' := by
  intro f' t' l' p' i' g' hf' hi' hg'
  have hfg : f' ≠ g := by
    rintro rfl
    rw [Function.update_self] at hf'
    cases hf'
  rw [Function.update_of_ne hfg] at hf'
  by_cases e : f' = f ∧ i' = i
  · rw [e.1, e.2, hV.now] at hg'
    cases hg'
  · rw [hV.same _ _ _ hi' e] at hg'
    have hc := h f' t' l' p' i' g' hf' hi' hg'
    rw [Function.update_of_ne]
    · exact hc
    · -- only one entry points to the table
      rintro rfl
      have hc' := h f t l p i g' hf hi hV.was
      rw [hc] at hc'
      obtain ⟨rfl, rfl, e1⟩ := Label.mk.inj (Option.some.inj hc')
      have h1 : p' = p := by
        have hB : 0 < B := Nat.lt_of_le_of_lt (Nat.zero_le i) hi
        calc p' = (p' * B + i') / B := (entry_div hB hi').symm
          _ = (p * B + i) / B := by rw [e1]
          _ = p := entry_div hB hi
      subst h1
      exact e ⟨hl.inj hf' hf, by lia⟩

theorem Linked.unlink (hl : Linked B lab V top root) (h : Forest B lab V) (hB : 0 < B)
    (hroot : ∀ t, lab (root t) = some ⟨t, top, 0⟩) {l : Nat} {f g : F} {i : Nat} {t : T} {p : Nat}
    (hf : lab f = some ⟨t, l + 1, p⟩) (hV : Unlinks B V V' l f i g) :
    Linked B (Function.update lab g none) V' top root := by
  intro g' t' l' p' hg'
  have hne : g' ≠ g := by
    rintro rfl
    rw [Function.update_self] at hg'
    cases hg'
  rw [Function.update_of_ne hne] at hg'
  obtain ⟨h1, h2, h3⟩ := hl g' t' l' p' hg'
  exact ⟨h1, h2, slot_unlink h hB hf hV (t := t') hne (by rw [hroot, h1]) h3⟩

end

/-! ## leaves that meet a range -/

section
variable {P : Type v} {U B : Nat}

/-- the leaf of level `l` that covers the key `k` meets the range of `n` bytes from `a`; a key is `U` bytes -/
def Touches (U B l k a n : Nat) : Prop := 0 < n ∧ k / B ^ l * (U * B ^ l) < a + n ∧ a < (k / B ^ l + 1) * (U * B ^ l)

instance (U B l k a n : Nat) : Decidable (Touches U B l k a n) := inferInstanceAs (Decidable (_ ∧ _))

/-- the lookups without the leaves that meet the range -/
def cut (U B : Nat) (w : Nat → Option (Nat × P)) (a n : Nat) (k : Nat) : Option (Nat × P) :=
  (w k).filter fun q => ¬ Touches U B q.1 k a n

theorem cut_none {w : Nat → Option (Nat × P)} {a n k : Nat} (h : w k = none) : cut U B w a n k = none := by
  rw [cut, h]
  rfl

theorem cut_some {w : Nat → Option (Nat × P)} {a n k l : Nat} {q : P} (h : w k = some (l, q)) :
    cut U B w a n k = if Touches U B l k a n then none else some (l, q) := by
  rw [cut, h]
  by_cases ht : Touches U B l k a n
  · rw [if_pos ht, Option.filter_some_neg]
    simp [ht]
  · rw [if_neg ht, Option.filter_some_pos]
    simp [ht]

theorem cut_congr {w w' : Nat → Option (Nat × P)} {a n k : Nat} (h : w k = w' k) :
    cut U B w a n k = cut U B w' a n k := by
  rw [cut, cut, h]

theorem cut_zero (w : Nat → Option (Nat × P)) (a : Nat) : cut U B w a 0 = w := by
  funext k
  cases h : w k with
  | none => exact cut_none h
  | some q =>
    rw [cut_some (q := q.2) (l := q.1) h, if_neg fun ht => Nat.lt_irrefl 0 ht.1]

theorem touches_add (hU : 0 < U * B ^ 0) {l k a c r : Nat} (hB : 0 < B) :
    Touches U B l k a (c + r) ↔ Touches U B l k a c ∨ Touches U B l k (a + c) r := by
  have hpos : 0 < U * B ^ l := Nat.mul_pos (Nat.pos_of_mul_pos_right hU) (Nat.pow_pos hB)
  have hlt : k / B ^ l * (U * B ^ l) < (k / B ^ l + 1) * (U * B ^ l) :=
    Nat.mul_lt_mul_of_pos_right (Nat.lt_succ_self _) hpos
  unfold Touches
  omega

/-- **Two ranges one after the other** -/
theorem cut_add (hU : 0 < U) (hB : 0 < B) (w : Nat → Option (Nat × P)) (a c r : Nat) :
    cut U B (cut U B w a c) (a + c) r = cut U B w a (c + r) := by
  funext k
  cases h : w k with
  | none => rw [cut_none (cut_none h), cut_none h]
  | some q =>
    have h1 := cut_some (U := U) (B := B) (a := a) (n := c) (l := q.1) (q := q.2) h
    have ht := touches_add (U := U) (l := q.1) (k := k) (a := a) (c := c) (r := r)
      (by rw [Nat.pow_zero, Nat.mul_one]; exact hU) hB
    rw [cut_some (l := q.1) (q := q.2) h]
    by_cases e : Touches U B q.1 k a c
    · rw [if_pos e] at h1
      rw [cut_none h1, if_pos (ht.mpr (.inl e))]
    · rw [if_neg e] at h1
      rw [cut_some h1]
      by_cases e' : Touches U B q.1 k (a + c) r
      · rw [if_pos e', if_pos (ht.mpr (.inr e'))]
      · rw [if_neg e', if_neg fun e1 => (ht.mp e1).elim e e']

/-- entry `m` of level `n` covers the range -/
def Within (U B m n a c : Nat) : Prop := m * (U * B ^ n) ≤ a ∧ a + c ≤ (m + 1) * (U * B ^ n)

variable {F : Type u} {T : Type w} {V V' : Store F P} {lab : F → Option (Label T)} {top : Nat} {root : T → F}

/-- a leaf that meets a range inside one entry of a table is under that entry -/
theorem leaf_under (hl : Linked B lab V top root) (hB : 0 < B) {f : F} {i : Nat} {t : T} {n p : Nat}
    (hf : lab f = some ⟨t, n, p⟩) (hi : i < B) {a c : Nat} (hw : Within U B (p * B + i) n a c) {k l : Nat} {q : P}
    (hk : walk B V top (root t) k = some (l, q)) (ht : Touches U B l k a c) : k / B ^ n = p * B + i := by
  obtain ⟨-, h1, h2⟩ := ht
  obtain ⟨h3, h4⟩ := hw
  have h5 : k / B ^ l * B ^ l < (p * B + i + 1) * B ^ n := by
    apply Nat.lt_of_mul_lt_mul_left (a := U)
    calc U * (k / B ^ l * B ^ l) = k / B ^ l * (U * B ^ l) := Nat.mul_left_comm _ _ _
      _ < (p * B + i + 1) * (U * B ^ n) := Nat.lt_of_lt_of_le h1 h4
      _ = U * ((p * B + i + 1) * B ^ n) := Nat.mul_left_comm _ _ _
  have h6 : (p * B + i) * B ^ n < (k / B ^ l + 1) * B ^ l := by
    apply Nat.lt_of_mul_lt_mul_left (a := U)
    calc U * ((p * B + i) * B ^ n) = (p * B + i) * (U * B ^ n) := Nat.mul_left_comm _ _ _
      _ < (k / B ^ l + 1) * (U * B ^ l) := Nat.lt_of_le_of_lt h3 h2
      _ = U * ((k / B ^ l + 1) * B ^ l) := Nat.mul_left_comm _ _ _
  rcases Nat.le_total l n with hln | hln
  · obtain ⟨d, rfl⟩ := Nat.exists_eq_add_of_le hln
    rw [Nat.pow_add, ← Nat.div_div_eq_div_mul]
    have hpos : 0 < B ^ l := Nat.pow_pos hB
    apply Nat.div_eq_of_lt_le
    · have h7 : (p * B + i) * B ^ d * B ^ l < (k / B ^ l + 1) * B ^ l := by
        rwa [Nat.mul_assoc, Nat.mul_comm (B ^ d), ← Nat.pow_add]
      have := Nat.lt_of_mul_lt_mul_right h7
      lia
    · have h7 : k / B ^ l * B ^ l < (p * B + i + 1) * B ^ d * B ^ l := by
        rwa [Nat.mul_assoc, Nat.mul_comm (B ^ d), ← Nat.pow_add]
      exact Nat.lt_of_mul_lt_mul_right h7
  · obtain ⟨d, rfl⟩ := Nat.exists_eq_add_of_le hln
    have hpos : 0 < B ^ n := Nat.pow_pos hB
    -- the leaf would cover the keys of the entry, which are found below the table
    have hx : (p * B + i) / B ^ d = k / B ^ (n + d) := by
      apply Nat.div_eq_of_lt_le
      · have h7 : k / B ^ (n + d) * B ^ d * B ^ n < (p * B + i + 1) * B ^ n := by
          rwa [Nat.mul_assoc, Nat.mul_comm (B ^ d), ← Nat.pow_add]
        have := Nat.lt_of_mul_lt_mul_right h7
        lia
      · have h7 : (p * B + i) * B ^ n < (k / B ^ (n + d) + 1) * B ^ d * B ^ n := by
          rwa [Nat.mul_assoc _ (B ^ d), Nat.mul_comm (B ^ d), ← Nat.pow_add]
        exact Nat.lt_of_mul_lt_mul_right h7
    have hk0 : (p * B + i) * B ^ n / B ^ n = p * B + i := Nat.mul_div_cancel _ hpos
    have h8 : k / B ^ (n + d) = (p * B + i) * B ^ n / B ^ (n + d) := by
      rw [← hx, Nat.pow_add, ← Nat.div_div_eq_div_mul ((p * B + i) * B ^ n), hk0]
    have h9 := walk_leaf_congr hk h8
    rw [hl.walk hB (by rw [(entry_key hB hi hk0).1]; exact hf)] at h9
    have hd : d = 0 := by have := walk_le h9; lia
    subst hd
    rw [Nat.pow_zero, Nat.div_one] at hx
    exact hx.symm

/-- **Clearing**, as a cut of the range that the caller asked for -/
theorem walk_clear_cut (hl : Linked B lab V top root) (h : Forest B lab V) (hU : 0 < U) (hB : 0 < B)
    (hroot : ∀ t, lab (root t) = some ⟨t, top, 0⟩) {f : F} {i : Nat} {t : T} {n p : Nat}
    (hf : lab f = some ⟨t, n, p⟩) (hi : i < B) (hn : ∀ g, V n f i ≠ .table g) (hV : AgreeOff B V V' f i)
    (he : V' n f i = .empty) {a c : Nat} (hc : 0 < c) (hw : Within U B (p * B + i) n a c) {k : Nat}
    (hk : k / B ^ (top + 1) = 0) : walk B V' top (root t) k = cut U B (walk B V top (root t)) a c k := by
  rw [walk_clear hl h hB hroot hf hi hn hV he hk]
  cases hq : walk B V top (root t) k with
  | none =>
    rw [cut_none hq]
    exact ite_self none
  | some q =>
    obtain ⟨l, q⟩ := q
    rw [cut_some hq]
    by_cases e : k / B ^ n = p * B + i
    · have hln : l = n := by
        obtain ⟨h1, h2⟩ := entry_key hB hi e
        rw [hl.walk hB (by rw [h1]; exact hf)] at hq
        cases n with
        | zero => exact Nat.le_zero.mp (walk_le hq)
        | succ n =>
          rw [walk, h2] at hq
          split at hq
          · cases hq
            rfl
          · rename_i g hg
            exact absurd hg (hn g)
          · cases hq
      have hpos : 0 < U * B ^ n := Nat.mul_pos hU (Nat.pow_pos hB)
      have ht : Touches U B l k a c := by
        rw [hln, Touches, e]
        have h1 := hw.1
        have h2 := hw.2
        omega
      rw [if_pos e, if_pos ht]
    · rw [if_neg e, if_neg fun ht => e (leaf_under hl hB hf hi hw hq ht)]

end

end Radix
