import Mathlib.Algebra.GroupWithZero.Nat
import Mathlib.Algebra.Order.Group.Nat
import Mathlib.Data.List.Basic

/-!
# Sorted spans of addresses

A list of spans in the order of their addresses, with a gap between any two of them.

* `Gapped`         in order, and no span touches the next;
* `Apart`          two spans have no address in common;
* `insert`         a span put in its place, joined with those it touches;
* `insert_gapped`, `total_insert`, `insert_forall`   what stays when a span is put in;
* `Gapped.refine`, `Gapped.flatMap`   spans replaced by parts of them;
* `Gapped.total_le`   the sum of the lengths.
-/

namespace Spans

structure Span where
  base : Nat
  len : Nat
deriving DecidableEq

namespace Span

def stop (s : Span) : Nat := s.base + s.len

/-- no address in common -/
def Apart (s t : Span) : Prop := s.stop ≤ t.base ∨ t.stop ≤ s.base

instance (s t : Span) : Decidable (s.Apart t) := inferInstanceAs (Decidable (_ ∨ _))

/-- one span inside another -/
def Within (s t : Span) : Prop := t.base ≤ s.base ∧ s.stop ≤ t.stop

theorem Apart.symm {s t : Span} (h : s.Apart t) : t.Apart s := Or.symm h

theorem Apart.within {s t u : Span} (h : s.Apart t) (hu : u.Within t) : s.Apart u := by
  unfold Apart Within at *
  lia

/-- away from both halves of a span, away from the span -/
theorem Apart.join {s t u : Span} (ht : s.Apart t) (hu : s.Apart u) (hs : 0 < s.len) (htu : t.stop = u.base) :
    s.Apart ⟨t.base, t.len + u.len⟩ := by
  unfold Apart stop at *
  dsimp only
  lia

end Span

/-- in order, with a gap after each span but the last -/
def Gapped (l : List Span) : Prop := l.Pairwise fun s t => s.stop < t.base

instance (l : List Span) : Decidable (Gapped l) := inferInstanceAs (Decidable (l.Pairwise _))

def total (l : List Span) : Nat := (l.map Span.len).sum

theorem total_nil : total [] = 0 := rfl

theorem total_cons (s : Span) (l : List Span) : total (s :: l) = s.len + total l := by
  simp [total]

theorem total_append (l r : List Span) : total (l ++ r) = total l + total r := by
  simp [total]

theorem gapped_append {l r : List Span} : Gapped (l ++ r) ↔ Gapped l ∧ Gapped r ∧ ∀ s ∈ l, ∀ t ∈ r, s.stop < t.base :=
  List.pairwise_append

theorem gapped_cons {s : Span} {l : List Span} : Gapped (s :: l) ↔ (∀ t ∈ l, s.stop < t.base) ∧ Gapped l :=
  List.pairwise_cons

/-- a span in the place of the one it lies in -/
theorem Gapped.refine {l r p : List Span} {s : Span} (h : Gapped (l ++ s :: r)) (hp : Gapped p)
    (hw : ∀ t ∈ p, t.Within s) : Gapped (l ++ p ++ r) := by
  obtain ⟨h1, h2, h3⟩ := gapped_append.mp h
  obtain ⟨h4, h5⟩ := gapped_cons.mp h2
  rw [List.append_assoc]
  refine gapped_append.mpr ⟨h1, gapped_append.mpr ⟨hp, h5, fun t ht u hu => ?_⟩, fun t ht u hu => ?_⟩
  · exact (hw t ht).2.trans_lt (h4 u hu)
  · rcases List.mem_append.mp hu with hu | hu
    · exact (h3 t ht s List.mem_cons_self).trans_le (hw u hu).1
    · exact h3 t ht u (List.mem_cons_of_mem _ hu)

/-- every span replaced by parts of it -/
theorem Gapped.flatMap {l : List Span} (h : Gapped l) {f : Span → List Span} (hf : ∀ s ∈ l, Gapped (f s))
    (hw : ∀ s ∈ l, ∀ t ∈ f s, t.Within s) : Gapped (l.flatMap f) := by
  induction l with
  | nil => exact List.Pairwise.nil
  | cons s l ih =>
    obtain ⟨h1, h2⟩ := gapped_cons.mp h
    rw [List.flatMap_cons]
    refine gapped_append.mpr ⟨hf s List.mem_cons_self, ?_, fun t ht u hu => ?_⟩
    · exact ih h2 (fun t ht => hf t (List.mem_cons_of_mem _ ht)) fun t ht => hw t (List.mem_cons_of_mem _ ht)
    · obtain ⟨v, hv, huv⟩ := List.mem_flatMap.mp hu
      have h3 := (hw s List.mem_cons_self t ht).2
      have h4 := (hw v (List.mem_cons_of_mem _ hv) u huv).1
      have h5 := h1 v hv
      omega

/-- no more addresses than there is room for -/
theorem Gapped.total_le {l : List Span} (h : Gapped l) {a n : Nat} (han : a ≤ n)
    (hl : ∀ s ∈ l, a ≤ s.base ∧ s.stop ≤ n) : a + total l ≤ n := by
  induction l generalizing a with
  | nil => exact han
  | cons s l ih =>
    obtain ⟨h1, h2⟩ := gapped_cons.mp h
    have hs := hl s List.mem_cons_self
    have h3 := ih h2 hs.2 fun t ht => ⟨(h1 t ht).le, (hl t (List.mem_cons_of_mem _ ht)).2⟩
    rw [total_cons]
    unfold Span.stop at *
    lia

/-! ## a span put in -/

/-- the last span, grown by `c` if they touch -/
def joinPrev (l : List Span) (c : Span) : List Span × Span :=
  match l.getLast? with
  | none => (l, c)
  | some p => if p.stop = c.base then (l.dropLast, ⟨p.base, p.len + c.len⟩) else (l, c)

/-- `c`, grown by the first span if they touch -/
def joinNext (c : Span) : List Span → List Span
  | [] => [c]
  | n :: r => if c.stop = n.base then ⟨c.base, c.len + n.len⟩ :: r else c :: n :: r

/-- `c` before the first span with a higher address -/
def insert (c : Span) (l : List Span) : List Span :=
  let p := joinPrev (l.takeWhile fun n => ¬ c.base < n.base) c
  p.1 ++ joinNext p.2 (l.dropWhile fun n => ¬ c.base < n.base)

section
variable {c : Span} {l r : List Span}

/-- what holds of both halves holds of the whole -/
def Joins (P : Span → Prop) : Prop := ∀ s t, P s → P t → s.stop = t.base → P ⟨s.base, s.len + t.len⟩

theorem joinPrev_cases (l : List Span) (c : Span) : joinPrev l c = (l, c) ∧ (∀ p ∈ l.getLast?, p.stop ≠ c.base) ∨
      ∃ l' p, l = l' ++ [p] ∧ p.stop = c.base ∧ joinPrev l c = (l', ⟨p.base, p.len + c.len⟩) := by
  unfold joinPrev
  rcases List.eq_nil_or_concat l with rfl | ⟨l', p, rfl⟩
  · exact .inl ⟨rfl, fun p hp => by cases hp⟩
  · simp only [List.concat_eq_append, List.getLast?_append, List.getLast?_singleton, Option.some_or,
      List.dropLast_concat]
    split
    · rename_i hp
      exact .inr ⟨l', p, rfl, hp, rfl⟩
    · rename_i hp
      exact .inl ⟨rfl, fun q hq => by
        cases hq
        exact hp⟩

theorem joinNext_cases (c : Span) (r : List Span) : joinNext c r = c :: r ∧ (∀ n ∈ r.head?, c.stop ≠ n.base) ∨
      ∃ n r', r = n :: r' ∧ c.stop = n.base ∧ joinNext c r = ⟨c.base, c.len + n.len⟩ :: r' := by
  cases r with
  | nil => exact .inl ⟨rfl, fun n hn => by cases hn⟩
  | cons n r =>
    by_cases hn : c.stop = n.base
    · exact .inr ⟨n, r, rfl, hn, if_pos hn⟩
    · exact .inl ⟨if_neg hn, fun m hm => by
        cases hm
        exact hn⟩

theorem joinPrev_spec (hl : Gapped l) (hc : ∀ s ∈ l, s.stop ≤ c.base) (hpos : 0 < c.len) :
    Gapped (joinPrev l c).1 ∧ (∀ s ∈ (joinPrev l c).1, s.stop < (joinPrev l c).2.base) ∧
      (joinPrev l c).2.stop = c.stop ∧ 0 < (joinPrev l c).2.len ∧
      total (joinPrev l c).1 + (joinPrev l c).2.len = total l + c.len := by
  rcases joinPrev_cases l c with ⟨he, hp⟩ | ⟨l', p, rfl, hp, he⟩
  · rw [he]
    refine ⟨hl, fun s hs => ?_, rfl, hpos, rfl⟩
    have h1 := hc s hs
    rcases List.eq_nil_or_concat l with rfl | ⟨l', p, rfl⟩
    · cases hs
    · rw [List.concat_eq_append] at hl hs hc hp
      have h2 := hp p (by simp)
      have h3 := hc p (by simp)
      rcases List.mem_append.mp hs with hs | hs
      · have h4 := (gapped_append.mp hl).2.2 s hs p (by simp)
        have h5 : p.base ≤ p.stop := Nat.le_add_right _ _
        show s.stop < c.base
        lia
      · rw [List.mem_singleton.mp hs]
        show p.stop < c.base
        lia
  · rw [he]
    obtain ⟨h1, -, h3⟩ := gapped_append.mp hl
    refine ⟨h1, fun s hs => h3 s hs p (by simp), ?_, ?_, ?_⟩
    · unfold Span.stop at *
      dsimp only
      lia
    · dsimp only
      lia
    · rw [total_append, total_cons, total_nil]
      dsimp only
      lia

theorem joinNext_spec (hr : Gapped r) (hc : ∀ t ∈ r, c.stop ≤ t.base) :
    Gapped (joinNext c r) ∧ (∀ t ∈ joinNext c r, c.base ≤ t.base) ∧ total (joinNext c r) = c.len + total r := by
  rcases joinNext_cases c r with ⟨he, hn⟩ | ⟨n, r', rfl, hn, he⟩
  · rw [he]
    refine ⟨gapped_cons.mpr ⟨fun t ht => ?_, hr⟩, fun t ht => ?_, total_cons c r⟩
    · cases r with
      | nil => cases ht
      | cons n r =>
        have h1 := hc n List.mem_cons_self
        have h2 := hn n rfl
        rcases List.mem_cons.mp ht with rfl | ht
        · lia
        · have h3 := (gapped_cons.mp hr).1 t ht
          have h4 : n.base ≤ n.stop := Nat.le_add_right _ _
          lia
    · rcases List.mem_cons.mp ht with rfl | ht
      · exact le_rfl
      · have h1 := hc t ht
        have h2 : c.base ≤ c.stop := Nat.le_add_right _ _
        lia
  · rw [he]
    obtain ⟨h1, h2⟩ := gapped_cons.mp hr
    refine ⟨gapped_cons.mpr ⟨fun t ht => ?_, h2⟩, fun t ht => ?_, ?_⟩
    · have h3 := h1 t ht
      unfold Span.stop at *
      dsimp only
      lia
    · rcases List.mem_cons.mp ht with rfl | ht
      · exact le_rfl
      · have h3 := h1 t ht
        have h4 : n.base ≤ n.stop := Nat.le_add_right _ _
        have h5 : c.base ≤ c.stop := Nat.le_add_right _ _
        lia
    · rw [total_cons, total_cons]
      dsimp only
      lia

/-- where `c` goes, seen from both sides -/
theorem place (hl : Gapped l) (hc : ∀ s ∈ l, s.Apart c) (hpos : 0 < c.len) :
    (∀ s ∈ l.takeWhile fun n => ¬ c.base < n.base, s.stop ≤ c.base) ∧
      ∀ t ∈ l.dropWhile fun n => ¬ c.base < n.base, c.stop ≤ t.base := by
  induction l with
  | nil => exact ⟨fun s hs => (by cases hs), fun t ht => by cases ht⟩
  | cons n l ih =>
    obtain ⟨h1, h2⟩ := gapped_cons.mp hl
    have hn := hc n List.mem_cons_self
    by_cases hlt : c.base < n.base
    · have hd : decide (¬ c.base < n.base) = false := by simpa using hlt
      rw [List.takeWhile_cons, List.dropWhile_cons]
      simp only [hd, Bool.false_eq_true, if_false]
      have h3 : c.stop ≤ n.base := by
        unfold Span.Apart Span.stop at *
        lia
      refine ⟨fun s hs => (by cases hs), fun t ht => ?_⟩
      rcases List.mem_cons.mp ht with rfl | ht
      · exact h3
      · have h4 := h1 t ht
        have h5 : n.base ≤ n.stop := Nat.le_add_right _ _
        lia
    · have hd : decide (¬ c.base < n.base) = true := by simpa using hlt
      rw [List.takeWhile_cons, List.dropWhile_cons]
      simp only [hd, if_true]
      obtain ⟨h3, h4⟩ := ih h2 fun s hs => hc s (List.mem_cons_of_mem _ hs)
      refine ⟨fun s hs => ?_, h4⟩
      rcases List.mem_cons.mp hs with rfl | hs
      · unfold Span.Apart Span.stop at *
        lia
      · exact h3 s hs

theorem gapped_split (hl : Gapped l) (p : Span → Bool) : Gapped (l.takeWhile p) ∧ Gapped (l.dropWhile p) := by
  have := gapped_append.mp (show Gapped (l.takeWhile p ++ l.dropWhile p) by rwa [List.takeWhile_append_dropWhile])
  exact ⟨this.1, this.2.1⟩

/-- **A span put in.** -/
theorem insert_gapped (hl : Gapped l) (hc : ∀ s ∈ l, s.Apart c) (hpos : 0 < c.len) :
    Gapped (insert c l) ∧ total (insert c l) = total l + c.len := by
  obtain ⟨h1, h2⟩ := place hl hc hpos
  obtain ⟨h3, h4⟩ := gapped_split hl fun n => ¬ c.base < n.base
  obtain ⟨p1, p2, p3, -, p5⟩ := joinPrev_spec h3 h1 hpos
  obtain ⟨n1, n2, n3⟩ := joinNext_spec (c := (joinPrev (l.takeWhile fun n => ¬ c.base < n.base) c).2) h4
    fun t ht => by
      rw [p3]
      exact h2 t ht
  unfold insert
  refine ⟨gapped_append.mpr ⟨p1, n1, fun s hs t ht => (p2 s hs).trans_le (n2 t ht)⟩, ?_⟩
  have h5 : total l = total (l.takeWhile fun n => ¬ c.base < n.base) + total (l.dropWhile fun n => ¬ c.base < n.base) := by
    rw [← total_append, List.takeWhile_append_dropWhile]
  dsimp only
  rw [total_append, n3, h5]
  omega

theorem joinPrev_forall {P : Span → Prop} (hP : Joins P) (hl : ∀ s ∈ l, P s) (hc : P c) :
    (∀ s ∈ (joinPrev l c).1, P s) ∧ P (joinPrev l c).2 := by
  rcases joinPrev_cases l c with ⟨he, -⟩ | ⟨l', p, rfl, hp, he⟩
  · rw [he]
    exact ⟨hl, hc⟩
  · rw [he]
    exact ⟨fun s hs => hl s (List.mem_append_left _ hs), hP p c (hl p (by simp)) hc hp⟩

theorem joinNext_forall {P : Span → Prop} (hP : Joins P) (hr : ∀ t ∈ r, P t) (hc : P c) :
    ∀ t ∈ joinNext c r, P t := by
  rcases joinNext_cases c r with ⟨he, -⟩ | ⟨n, r', rfl, hn, he⟩
  · rw [he]
    exact List.forall_mem_cons.mpr ⟨hc, hr⟩
  · rw [he]
    obtain ⟨h1, h2⟩ := List.forall_mem_cons.mp hr
    exact List.forall_mem_cons.mpr ⟨hP c n hc h1 hn, h2⟩

/-- what holds of the spans and of the new one, and passes to joined spans, holds afterwards -/
theorem insert_forall {P : Span → Prop} (hP : Joins P) (hl : ∀ s ∈ l, P s) (hc : P c) : ∀ s ∈ insert c l, P s := by
  obtain ⟨h1, h2⟩ := joinPrev_forall (l := l.takeWhile fun n => ¬ c.base < n.base) hP
    (fun s hs => hl s (List.takeWhile_subset _ hs)) hc
  have h3 := joinNext_forall (r := l.dropWhile fun n => ¬ c.base < n.base) hP
    (fun s hs => hl s (List.dropWhile_subset _ hs)) h2
  intro s hs
  rcases List.mem_append.mp hs with hs | hs
  · exact h1 s hs
  · exact h3 s hs

end
end Spans
