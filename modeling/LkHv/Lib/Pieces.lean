import Mathlib.Data.List.Basic
import Mathlib.Logic.Nontrivial.Basic

/-!
# Runs of cells stored one after the other

A memory is a function from addresses to cells, a piece is a run of cells from an address on.

* `cell`, `put`     the cell of a piece at an address, a piece stored;
* `last`            what the last of some pieces puts at an address;
* `putAll_apply`    the memory after all pieces are stored;
* `putAll_const`    a cell does not depend on the memory before if and only if some piece covers it.
-/

namespace LkHv.Pieces
universe u
variable {β : Type u}

/-- the cell of the piece at `a` -/
def cell (p : Nat × List β) (a : Nat) : Option β := if p.1 ≤ a then p.2[a - p.1]? else none

/-- the piece is stored -/
def put (m : Nat → β) (p : Nat × List β) : Nat → β := fun a => (cell p a).getD (m a)

/-- the pieces are stored, the first one first -/
def putAll (m : Nat → β) (ps : List (Nat × List β)) : Nat → β := ps.foldl put m

def last : List (Nat × List β) → Nat → Option β
  | [], _ => none
  | p :: ps, a => (last ps a).or (cell p a)

theorem cell_nil (a b : Nat) : cell (a, ([] : List β)) b = none := by
  unfold cell
  split <;> rfl

theorem cell_add {a k : Nat} {bs : List β} : cell (a, bs) (a + k) = bs[k]? := by
  unfold cell
  rw [if_pos (Nat.le_add_right a k), Nat.add_sub_cancel_left]

theorem putAll_append (m : Nat → β) (ps qs : List (Nat × List β)) :
    putAll m (ps ++ qs) = putAll (putAll m ps) qs := List.foldl_append ..

/-- an empty piece stores nothing -/
theorem last_nil_cons (b a : Nat) (ps : List (Nat × List β)) : last ((b, []) :: ps) a = last ps a := by
  show (last ps a).or (cell (b, []) a) = last ps a
  rw [cell_nil, Option.or_none]

/-- **The memory after all pieces are stored.** -/
theorem putAll_apply (ps : List (Nat × List β)) (m : Nat → β) (a : Nat) : putAll m ps a = (last ps a).getD (m a) := by
  induction ps generalizing m with
  | nil => rfl
  | cons p ps ih =>
    show putAll (put m p) ps a = ((last ps a).or (cell p a)).getD (m a)
    rw [ih]
    cases last ps a with
    | none => rfl
    | some b => rfl

theorem putAll_snoc_nil (m : Nat → β) (ps : List (Nat × List β)) (b : Nat) :
    putAll m (ps ++ [(b, [])]) = putAll m ps := by
  funext a
  rw [putAll_append, putAll_apply, last_nil_cons]
  rfl

/-- whatever was there before, the cell at `a` is `b` -/
theorem putAll_const [Nontrivial β] {ps : List (Nat × List β)} {a : Nat} {b : β} :
    (∀ m : Nat → β, putAll m ps a = b) ↔ last ps a = some b := by
  constructor
  · intro h
    obtain ⟨c, hc⟩ := exists_ne b
    have h1 := h fun _ => c
    rw [putAll_apply] at h1
    cases hl : last ps a with
    | none =>
      rw [hl] at h1
      exact absurd h1 hc
    | some d =>
      rw [hl] at h1
      exact congrArg some h1
  · intro h m
    rw [putAll_apply, h]
    rfl

end LkHv.Pieces
