import Mathlib.Data.List.Nodup

/-!
# UDP listeners (`lib/minip/udp.c`)

The code of a callback is a name of type `κ`; the null callback is `none`, and `udp_listen` puts one on the list when
it is asked to remove a port that is not there.

* `udpListen`, `udpInput`   the source's;
* `Listening`               at most one listener for a port, none of them null;
* `udpInput_of_mem`         a packet to the port of a listener is dispatched to it;
* `udpListen_add`, `udpListen_remove`   what is registered afterwards.
-/

namespace LkHv.Net

/-- `struct udp_listener` -/
structure UdpListener (κ : Type) where
  port : UInt16
  callback : Option κ
  arg : Nat
  deriving DecidableEq

variable {κ : Type} {ls : List (UdpListener κ)} {l m : UdpListener κ} {port : UInt16} {cb : κ} {arg : Nat}
  {room : Bool}

/-- `udp_listen`; `room` says whether `malloc` succeeds -/
def udpListen (ls : List (UdpListener κ)) (port : UInt16) (cb : Option κ) (arg : Nat) (room : Bool) :
    List (UdpListener κ) × Int :=
  if ls.any fun e => e.port == port then
    match cb with
    | none => (ls.eraseP fun e => e.port == port, 0)
    | some _ => (ls, -1)
  else if room then (ls ++ [⟨port, cb, arg⟩], 0)
  else (ls, -1)

/-- `udp_input`: the listener whose callback is called, which nothing compares with null -/
def udpInput (ls : List (UdpListener κ)) (port : UInt16) : Option (UdpListener κ) := ls.find? fun e => e.port == port

/-- at most one listener for a port, and no null callback -/
structure Listening (ls : List (UdpListener κ)) : Prop where
  nodup : (ls.map (·.port)).Nodup
  live : ∀ e ∈ ls, e.callback ≠ none

theorem Listening.nil : Listening ([] : List (UdpListener κ)) := ⟨List.nodup_nil, fun e he => (by cases he)⟩

theorem Listening.eq (h : Listening ls) (hl : l ∈ ls) (hm : m ∈ ls) (hp : l.port = m.port) : l = m :=
  List.inj_on_of_nodup_map h.nodup hl hm hp

theorem any_port_iff : (ls.any fun e => e.port == port) = true ↔ ∃ e ∈ ls, e.port = port := by
  simp only [List.any_eq_true, beq_iff_eq]

/-- what is dispatched is registered -/
theorem udpInput_mem (h : udpInput ls port = some l) : l ∈ ls ∧ l.port = port :=
  ⟨List.mem_of_find?_eq_some h, by simpa using List.find?_some h⟩

theorem udpInput_of_mem (h : Listening ls) (hl : l ∈ ls) : udpInput ls l.port = some l := by
  obtain ⟨m, hm⟩ : ∃ m, udpInput ls l.port = some m := by
    rw [← Option.isSome_iff_exists, udpInput, List.find?_isSome]
    exact ⟨l, hl, beq_self_eq_true _⟩
  obtain ⟨hmem, hport⟩ := udpInput_mem hm
  rw [hm, h.eq hmem hl hport]

/-! ## the list afterwards -/

/-- a port that is free -/
theorem udpListen_add (h : ∀ e ∈ ls, e.port ≠ port) :
    udpListen ls port (some cb) arg true = (ls ++ [⟨port, some cb, arg⟩], 0) := by
  unfold udpListen
  rw [if_neg, if_pos rfl]
  rw [any_port_iff]
  rintro ⟨e, he, hp⟩
  exact h e he hp

/-- a port that is taken, or no memory -/
theorem udpListen_refused (h : (∃ e ∈ ls, e.port = port) ∨ room = false) :
    udpListen ls port (some cb) arg room = (ls, -1) := by
  unfold udpListen
  split
  · rfl
  · rename_i hfree
    rcases h with h | rfl
    · exact absurd (any_port_iff.mpr h) hfree
    · rfl

/-- a port that is removed -/
theorem udpListen_remove (h : Listening ls) (hl : l ∈ ls) :
    udpListen ls l.port none arg room = (ls.filter fun e => e.port ≠ l.port, 0) := by
  have herase : (ls.eraseP fun e => e.port == l.port) = ls.filter fun e => e.port ≠ l.port := by
    have hn := h.nodup
    clear h
    induction ls with
    | nil => cases hl
    | cons e es ih =>
      rw [List.map_cons, List.nodup_cons] at hn
      rw [List.eraseP_cons, List.filter_cons]
      by_cases hp : e.port = l.port
      · rw [if_neg (by simpa using hp), hp, beq_self_eq_true, cond_true]
        refine (List.filter_eq_self.mpr fun x hx => ?_).symm
        have hne : x.port ≠ l.port := fun hxl => hn.1 (by
          rw [hp, ← hxl]
          exact List.mem_map_of_mem hx)
        simpa using hne
      · rw [if_pos (by simpa using hp), beq_false_of_ne hp, cond_false]
        refine congrArg _ (ih ?_ hn.2)
        rcases List.mem_cons.mp hl with rfl | hl
        · exact absurd rfl hp
        · exact hl
  unfold udpListen
  rw [if_pos (any_port_iff.mpr ⟨l, hl, rfl⟩), herase]

theorem Listening.append (h : Listening ls) (hfree : ∀ e ∈ ls, e.port ≠ port) :
    Listening (ls ++ [⟨port, some cb, arg⟩]) := by
  constructor
  · rw [List.map_append, List.map_singleton, List.nodup_append]
    refine ⟨h.nodup, List.nodup_singleton _, fun p hp q hq => ?_⟩
    obtain ⟨e, he, rfl⟩ := List.mem_map.mp hp
    rw [List.mem_singleton.mp hq]
    exact hfree e he
  · intro e he
    rcases List.mem_append.mp he with he | he
    · exact h.live e he
    · rw [List.mem_singleton.mp he]
      exact Option.some_ne_none _

theorem Listening.filter (h : Listening ls) (p : UdpListener κ → Bool) : Listening (ls.filter p) :=
  ⟨h.nodup.sublist (List.filter_sublist.map _), fun e he => h.live e (List.mem_of_mem_filter he)⟩

/-- a registration keeps the list in order -/
theorem Listening.listen (h : Listening ls) (cb : κ) (port : UInt16) (arg : Nat) (room : Bool) :
    Listening (udpListen ls port (some cb) arg room).1 := by
  by_cases hr : (∃ e ∈ ls, e.port = port) ∨ room = false
  · rw [udpListen_refused hr]
    exact h
  · obtain ⟨hfree, hroom⟩ := not_or.mp hr
    have hport : ∀ e ∈ ls, e.port ≠ port := fun e he hp => hfree ⟨e, he, hp⟩
    rw [show room = true by simpa using hroom, udpListen_add hport]
    exact h.append hport

/-- what is new on the list is what was registered -/
theorem udpListen_new (he : l ∈ (udpListen ls port (some cb) arg room).1) : l ∈ ls ∨ l = ⟨port, some cb, arg⟩ := by
  unfold udpListen at he
  split at he
  · exact .inl he
  · split at he
    · rcases List.mem_append.mp he with he | he
      · exact .inl he
      · exact .inr (List.mem_singleton.mp he)
    · exact .inl he

/-- a registration removes nothing -/
theorem udpListen_old (hl : l ∈ ls) : l ∈ (udpListen ls port (some cb) arg room).1 := by
  unfold udpListen
  split
  · exact hl
  · split
    · exact List.mem_append_left _ hl
    · exact hl

end LkHv.Net
