import Mathlib.Data.List.Nodup

/-!
# Members with back pointers

Each owner has a list of members, and each member a pointer to its owner.  `ptr a` is the owner of `a`, and
`list b` the members of `b`, `none` if there is no such owner.

* `Members ptr list`   the pointers and the lists say the same, and no list has a member twice;
* `create`, `link`, `unlink`, `drop`   an owner without members, a member more, a member less, an owner less.
-/

/-- pointers and lists say the same -/
structure Members {α β : Type*} (ptr : α → Option β) (list : β → Option (List α)) : Prop where
  nodup : ∀ {b l}, list b = some l → l.Nodup
  mem : ∀ {b l}, list b = some l → ∀ a, a ∈ l ↔ ptr a = some b
  owner : ∀ {a b}, ptr a = some b → (list b).isSome

namespace Members
variable {α β : Type*} {ptr : α → Option β} {list : β → Option (List α)} {a : α} {b : β} {l : List α}

theorem empty : Members (fun _ : α => (none : Option β)) (fun _ => none) where
  nodup h := by cases h
  mem h := by cases h
  owner h := by cases h

/-- nothing points to what is no owner -/
theorem ptr_ne (h : Members ptr list) (hb : list b = none) (a : α) : ptr a ≠ some b := by
  intro ha
  have := h.owner ha
  rw [hb] at this
  cases this

variable [DecidableEq β]

theorem create (h : Members ptr list) (hb : list b = none) : Members ptr (Function.update list b (some [])) where
  nodup {c m} hc := by
    by_cases e : c = b
    · subst e
      rw [Function.update_self] at hc
      cases hc
      exact List.nodup_nil
    · rw [Function.update_of_ne e] at hc
      exact h.nodup hc
  mem {c m} hc a := by
    by_cases e : c = b
    · subst e
      rw [Function.update_self] at hc
      cases hc
      exact ⟨fun ha => (by cases ha), fun ha => absurd ha (h.ptr_ne hb a)⟩
    · rw [Function.update_of_ne e] at hc
      exact h.mem hc a
  owner {a c} ha := by
    by_cases e : c = b
    · subst e
      exact absurd ha (h.ptr_ne hb a)
    · rw [Function.update_of_ne e]
      exact h.owner ha

variable [DecidableEq α]

/-- a member more -/
theorem link (h : Members ptr list) (ha : ptr a = none) (hb : list b = some l) :
    Members (Function.update ptr a (some b)) (Function.update list b (some (l ++ [a]))) where
  nodup {c m} hc := by
    by_cases e : c = b
    · subst e
      rw [Function.update_self] at hc
      cases hc
      refine List.Nodup.append (h.nodup hb) (List.nodup_singleton a) ?_
      intro x hx hx'
      rw [List.mem_singleton.mp hx', h.mem hb, ha] at hx
      cases hx
    · rw [Function.update_of_ne e] at hc
      exact h.nodup hc
  mem {c m} hc x := by
    by_cases e : c = b
    · subst e
      rw [Function.update_self] at hc
      cases hc
      rw [List.mem_append, List.mem_singleton]
      by_cases ex : x = a
      · subst ex
        rw [Function.update_self]
        exact ⟨fun _ => rfl, fun _ => .inr rfl⟩
      · rw [Function.update_of_ne ex, h.mem hb]
        exact ⟨fun hx => hx.resolve_right ex, .inl⟩
    · rw [Function.update_of_ne e] at hc
      rw [h.mem hc]
      by_cases ex : x = a
      · subst ex
        rw [Function.update_self, ha]
        exact ⟨fun hx => (by cases hx), fun hx => absurd (Option.some.inj hx).symm e⟩
      · rw [Function.update_of_ne ex]
  owner {x c} hx := by
    by_cases e : c = b
    · subst e
      rw [Function.update_self]
      rfl
    · rw [Function.update_of_ne e]
      by_cases ex : x = a
      · subst ex
        rw [Function.update_self] at hx
        exact absurd (Option.some.inj hx).symm e
      · rw [Function.update_of_ne ex] at hx
        exact h.owner hx

/-- a member less -/
theorem unlink (h : Members ptr list) (ha : ptr a = some b) (hb : list b = some l) :
    Members (Function.update ptr a none) (Function.update list b (some (l.erase a))) where
  nodup {c m} hc := by
    by_cases e : c = b
    · subst e
      rw [Function.update_self] at hc
      cases hc
      exact (h.nodup hb).erase a
    · rw [Function.update_of_ne e] at hc
      exact h.nodup hc
  mem {c m} hc x := by
    by_cases e : c = b
    · subst e
      rw [Function.update_self] at hc
      cases hc
      rw [(h.nodup hb).mem_erase_iff, h.mem hb]
      by_cases ex : x = a
      · subst ex
        rw [Function.update_self]
        exact ⟨fun hx => absurd rfl hx.1, fun hx => by cases hx⟩
      · rw [Function.update_of_ne ex]
        exact ⟨fun hx => hx.2, fun hx => ⟨ex, hx⟩⟩
    · rw [Function.update_of_ne e] at hc
      rw [h.mem hc]
      by_cases ex : x = a
      · subst ex
        rw [Function.update_self, ha]
        exact ⟨fun hx => absurd (Option.some.inj hx).symm e, fun hx => by cases hx⟩
      · rw [Function.update_of_ne ex]
  owner {x c} hx := by
    have ex : x ≠ a := by
      rintro rfl
      rw [Function.update_self] at hx
      cases hx
    rw [Function.update_of_ne ex] at hx
    by_cases e : c = b
    · subst e
      rw [Function.update_self]
      rfl
    · rw [Function.update_of_ne e]
      exact h.owner hx

/-- an owner less: its members point nowhere -/
theorem drop (h : Members ptr list) (hb : list b = some l) :
    Members (fun a => if a ∈ l then none else ptr a) (Function.update list b none) where
  nodup {c m} hc := by
    by_cases e : c = b
    · subst e
      rw [Function.update_self] at hc
      cases hc
    · rw [Function.update_of_ne e] at hc
      exact h.nodup hc
  mem {c m} hc x := by
    by_cases e : c = b
    · subst e
      rw [Function.update_self] at hc
      cases hc
    · rw [Function.update_of_ne e] at hc
      rw [h.mem hc]
      split
      · rename_i hx
        rw [(h.mem hb x).mp hx]
        exact ⟨fun hx => absurd (Option.some.inj hx).symm e, fun hx => by cases hx⟩
      · exact Iff.rfl
  owner {x c} hx := by
    split at hx
    · cases hx
    · rename_i hn
      have e : c ≠ b := by
        rintro rfl
        exact hn ((h.mem hb x).mpr hx)
      rw [Function.update_of_ne e]
      exact h.owner hx

end Members
