import Mathlib.Data.List.Perm.Basic
import Mathlib.Data.List.Nodup

/-!
# Lists of linked nodes

A family `L` of lists whose nodes have one link each, so that a node is on one list at most.

* `Apart L`                     no node is on two lists, or twice on one;
* `unlink L x`                  the node taken off, whichever list it is on;
* `insertBefore p x l`          the node put before the first one that meets `p`;
* `Apart.unlink`, `Apart.link`, `Apart.clear`   what keeps the lists apart;
* `Apart.unlink_head`, `length_unlink`   the head of a list taken off; the length of the list left.
-/

universe u v

namespace Links

section
variable {V : Type u} {A : Type v}

/-- no node is on two lists, or twice on one -/
structure Apart (L : V → List A) : Prop where
  nodup : ∀ v, (L v).Nodup
  once : ∀ {v w x}, x ∈ L v → x ∈ L w → v = w

/-- the node put before the first one that meets `p`, and nowhere if there is none -/
def insertBefore (p : A → Bool) (x : A) : List A → List A
  | [] => []
  | t :: l => if p t then x :: t :: l else t :: insertBefore p x l

theorem insertBefore_perm {p : A → Bool} (x : A) {l : List A} (h : ∃ t ∈ l, p t) :
    (insertBefore p x l).Perm (x :: l) := by
  induction l with
  | nil =>
    obtain ⟨t, ht, -⟩ := h
    cases ht
  | cons t l ih =>
    rw [insertBefore]
    split
    · exact List.Perm.refl _
    · rename_i ht
      have hl : ∃ u ∈ l, p u := by
        obtain ⟨u, hu, hp⟩ := h
        rcases List.mem_cons.mp hu with rfl | hu
        · exact absurd hp ht
        · exact ⟨u, hu, hp⟩
      exact ((ih hl).cons t).trans (List.Perm.swap x t l)

namespace Apart
variable {L : V → List A} [DecidableEq V]

/-- a list emptied -/
theorem clear (h : Apart L) (v : V) : Apart (Function.update L v []) := by
  have hm : ∀ {w x}, x ∈ Function.update L v [] w → x ∈ L w := by
    intro w x hx
    by_cases e : w = v
    · subst e
      rw [Function.update_self] at hx
      cases hx
    · rwa [Function.update_of_ne e] at hx
  refine ⟨fun w => ?_, fun hv hw => h.once (hm hv) (hm hw)⟩
  by_cases e : w = v
  · subst e
    rw [Function.update_self]
    exact List.nodup_nil
  · rw [Function.update_of_ne e]
    exact h.nodup w

/-- a node that is on no list put on the list of `v` -/
theorem link (h : Apart L) {x : A} (hx : ∀ w, x ∉ L w) {v : V} {l : List A} (hl : l.Perm (x :: L v)) :
    Apart (Function.update L v l) := by
  have hm : ∀ {w y}, y ∈ Function.update L v l w → y = x ∧ w = v ∨ y ∈ L w := by
    intro w y hy
    by_cases e : w = v
    · subst e
      rw [Function.update_self, hl.mem_iff, List.mem_cons] at hy
      exact hy.imp_left fun e => ⟨e, rfl⟩
    · rw [Function.update_of_ne e] at hy
      exact .inr hy
  refine ⟨fun w => ?_, fun hv hw => ?_⟩
  · by_cases e : w = v
    · subst e
      rw [Function.update_self, hl.nodup_iff, List.nodup_cons]
      exact ⟨hx w, h.nodup w⟩
    · rw [Function.update_of_ne e]
      exact h.nodup w
  · rcases hm hv with ⟨rfl, rfl⟩ | hv' <;> rcases hm hw with ⟨e, rfl⟩ | hw'
    · rfl
    · exact absurd hw' (hx _)
    · exact absurd (e ▸ hv') (hx _)
    · exact h.once hv' hw'

end Apart
end

section
variable {V : Type u} {A : Type v} [DecidableEq A]

/-- the node `x` taken off, whichever list it is on -/
def unlink (L : V → List A) (x : A) : V → List A := fun v => (L v).filter (· ≠ x)

@[simp] theorem mem_unlink {L : V → List A} {x y : A} {v : V} :
    y ∈ unlink L x v ↔ y ∈ L v ∧ y ≠ x := by
  simp [unlink]

theorem unlink_of_not_mem {L : V → List A} {x : A} {v : V} (hx : x ∉ L v) : unlink L x v = L v := by
  unfold unlink
  rw [List.filter_eq_self]
  intro y hy
  have : y ≠ x := fun e => hx (e ▸ hy)
  simpa using this

/-- the list a node is on gets shorter by one -/
theorem length_unlink {L : V → List A} {x : A} {v : V} (hn : (L v).Nodup) (hx : x ∈ L v) :
    (unlink L x v).length + 1 = (L v).length := by
  have he : unlink L x v = (L v).erase x := by
    rw [hn.erase_eq_filter]
    unfold unlink
    congr 1
    funext y
    by_cases e : y = x <;> simp [e]
  rw [he, List.length_erase_of_mem hx]
  have := List.length_pos_of_mem hx
  omega

theorem Apart.unlink {L : V → List A} (h : Apart L) (x : A) : Apart (unlink L x) where
  nodup v := (h.nodup v).filter _
  once hv hw := h.once (mem_unlink.mp hv).1 (mem_unlink.mp hw).1

/-- the head of a list taken off -/
theorem Apart.unlink_head [DecidableEq V] {L : V → List A} (h : Apart L) {v : V} {x : A} {l : List A}
    (hv : L v = x :: l) : Links.unlink L x = Function.update L v l := by
  funext w
  by_cases e : w = v
  · subst e
    have hx := h.nodup w
    rw [hv, List.nodup_cons] at hx
    rw [Function.update_self]
    unfold Links.unlink
    rw [hv, List.filter_cons_of_neg (by simp), List.filter_eq_self]
    intro y hy
    have : y ≠ x := fun e => hx.1 (e ▸ hy)
    simpa using this
  · rw [Function.update_of_ne e, unlink_of_not_mem]
    intro hw
    exact e (h.once hw (v := w) (w := v) (by simp [hv]))

end
end Links
