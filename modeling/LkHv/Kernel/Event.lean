import LkHv.Lib.Machine
import LkHv.Kernel.WaitQueue

/-!
# Events (`kernel/event.c`)

An event is a flag over a wait queue.  `event_signal` and `event_wait_timeout` hold `thread_lock`, and
`event_unsignal` does not: it may clear the flag between any two of their accesses.  Each signal made while
the event is unsignaled has a number, and the event says where that signal went.

* `eventInit`, `eventSignal`, `eventWaitTimeout`, `eventUnsignal`   the source's; `eventWake`, `eventFinish`
  are the rest of a call in its locked section;
* `eventSys`          the event under any calls, timers and schedule;
* `EventExact`        every signal is in one place, every wait that returned `NO_ERROR` had one of its own,
  no thread waits while the flag is set;
* `SignalStep`        where one step takes a signal;
* `event_semantics`   every state is `EventExact`, every step a `SignalStep`, and the flag of a plain event
  stays until it is cleared.
-/

namespace LkHv

/-- the call in the locked section, and how far it got -/
inductive EventCall
  | idle
  /-- `event_signal` has read the flag clear -/
  | signalling (n : Nat)
  /-- an auto-unsignal event had no thread to wake, and the flag is not set yet -/
  | setting (n : Nat)
  /-- a plain event's flag is set, and its threads are not awake yet -/
  | waking
  /-- `event_wait_timeout` has read the flag of an auto-unsignal event set -/
  | taking (t : Nat)
deriving DecidableEq

/-- `event_t`, the call in progress, and where the signals went -/
structure EventT where
  signaled : Bool
  autounsignal : Bool
  wait : WaitQueue
  call : EventCall
  /-- signals made while the event was unsignaled -/
  signals : Nat
  /-- the signal the flag of an auto-unsignal event stands for -/
  slot : Option Nat
  /-- signals of an auto-unsignal event and the threads they released -/
  released : List (Nat × Nat)
  /-- signals that `event_unsignal` took back -/
  cleared : List Nat
  /-- the waits that returned -/
  returns : List (Nat × WaitRet)

namespace EventT

/-- `event_init`; an initial flag counts as a signal -/
def eventInit (auto initial : Bool) : EventT :=
  { signaled := initial, autounsignal := auto, wait := .init, call := .idle,
    signals := if initial then 1 else 0, slot := if auto && initial then some 0 else none,
    released := [], cleared := [], returns := [] }

/-- `event_signal` up to the test of the flag -/
def eventSignal (s : EventT) : EventT :=
  if s.signaled then s else { s with call := .signalling s.signals, signals := s.signals + 1 }

/-- `event_signal` up to the next access: `wait_queue_wake_one`, or the write of the flag -/
def eventWake (s : EventT) : Option EventT :=
  match s.call with
  | .signalling n =>
    if s.autounsignal then
      match s.wait.list with
      | [] => some { s with call := .setting n }
      | w :: _ => some { s with wait := s.wait.wakeOne, released := (n, w.thread) :: s.released, call := .idle }
    else some { s with signaled := true, call := .waking }
  | _ => none

/-- `event_wait_timeout` up to the write of the flag, or as a whole where it has none -/
def eventWaitTimeout (s : EventT) (t timeout : Nat) : EventT :=
  if s.signaled then
    if s.autounsignal then
      { s with call := .taking t, slot := none, released := (s.slot.map fun n => (n, t)).toList ++ s.released }
    else { s with returns := (t, .noError) :: s.returns }
  else if timeout = 0 then { s with returns := (t, .timedOut) :: s.returns }
  else { s with wait := s.wait.block t timeout }

/-- the last access of a call in its locked section -/
def eventFinish (s : EventT) : Option EventT :=
  match s.call with
  | .setting n => some { s with signaled := true, slot := some n, call := .idle }
  | .waking => some { s with wait := s.wait.wakeAll, call := .idle }
  | .taking t => some { s with signaled := false, returns := (t, .noError) :: s.returns, call := .idle }
  | _ => none

def eventUnsignal (s : EventT) : EventT :=
  { s with signaled := false, slot := none, cleared := s.slot.toList ++ s.cleared }

/-- the rest of `event_wait_timeout` after `thread_resched` -/
def eventResume (s : EventT) (t : Nat) : Option EventT :=
  (s.wait.resume t).map fun r => { s with wait := r.2, returns := (t, r.1) :: s.returns }

inductive EventOp
  | signal
  | wake
  | finish
  | waitTimeout (t timeout : Nat)
  | unsignal
  | resume (t : Nat)
  | timerTick (t : Nat)
  | timeoutHandler (t : Nat)
  | elsewhere (t : Nat)

/-- `event_unsignal` and `timer_tick` take no `thread_lock`; a thread calls when it is not waiting already -/
def eventStep (s : EventT) : EventOp → Option EventT
  | .signal => if s.call = .idle then some s.eventSignal else none
  | .wake => s.eventWake
  | .finish => s.eventFinish
  | .waitTimeout t timeout =>
    if s.call = .idle ∧ t ∉ s.wait.threads then some (s.eventWaitTimeout t timeout) else none
  | .unsignal => some s.eventUnsignal
  | .resume t => if s.call = .idle then s.eventResume t else none
  | .timerTick t => (s.wait.timerTick t).map fun w => { s with wait := w }
  | .timeoutHandler t =>
    if s.call = .idle then (s.wait.timeoutHandler t).map fun w => { s with wait := w } else none
  | .elsewhere t => if t ∈ s.wait.threads then none else some { s with wait := s.wait.elsewhere t }

def eventSys (auto initial : Bool) : Machine EventT EventOp := .ofFun (· = eventInit auto initial) eventStep

/-! ## where the signals are -/

/-- the signal in the hands of `event_signal` -/
def pending (s : EventT) : List Nat :=
  match s.call with
  | .signalling n => [n]
  | .setting n => [n]
  | _ => []

/-- the thread in the hands of `event_wait_timeout` -/
def passing (s : EventT) : List Nat :=
  match s.call with
  | .taking t => [t]
  | _ => []

/-- the threads whose waits returned `NO_ERROR` -/
def passed (s : EventT) : List Nat := (s.returns.filter fun r => r.2 = .noError).map Prod.fst

/-- Every signal of an auto-unsignal event is in the hands of its call, is what the flag stands for, has
released one thread, or was taken back.  The threads released are those whose wait returned `NO_ERROR` or
will: one that timed out had no signal.  No thread waits while the flag is set. -/
structure EventExact (s : EventT) : Prop where
  each : s.autounsignal → (s.pending ++ s.slot.toList ++ s.released.map Prod.fst ++ s.cleared).Perm
    (List.range s.signals)
  own : s.autounsignal → (s.released.map Prod.snd).Perm (s.passed ++ s.passing ++ s.wait.grantedTo)
  flag : s.autounsignal → s.call = .idle → (s.signaled ↔ s.slot.isSome)
  free : s.call = .idle → s.signaled → s.wait.list = []
  once : s.wait.Wf

/-- What one step does to the signals. -/
structure SignalStep (s : EventT) (op : EventOp) (s' : EventT) : Prop where
  /-- what a signal did stays done -/
  kept : s.released <:+ s'.released ∧ s.cleared <:+ s'.cleared
  /-- a signal releases a thread that waits, and the flag keeps it only if there is none -/
  sent : s.autounsignal → ∀ n ∈ s.pending, n ∈ s'.pending ∨ (s.wait.list = [] ∧ s'.slot = some n) ∨
    ∃ w ∈ s.wait.list, s'.released = (n, w.thread) :: s.released ∧ (w, WaitRet.noError) ∈ s'.wait.woken
  /-- what the flag stands for stays until it is cleared or a thread arrives -/
  held : ∀ n, s.slot = some n → s'.slot = some n ∨ (op = .unsignal ∧ s'.cleared = n :: s.cleared) ∨
    ∃ t timeout, op = .waitTimeout t timeout
  /-- the next thread to arrive is released by it -/
  next : ∀ n t timeout, s.slot = some n → op = .waitTimeout t timeout → s'.released = (n, t) :: s.released
  /-- a plain event's signal sets the flag -/
  set : s.autounsignal = false → ∀ n ∈ s.pending,
    n ∈ s'.pending ∨ (s'.call = .waking ∧ s'.signaled = true ∧ s'.wait = s.wait)
  /-- and then releases every thread that waits -/
  all : s.call = .waking → op = .finish → s'.wait.list = [] ∧ ∀ w ∈ s.wait.list, (w, WaitRet.noError) ∈ s'.wait.woken
  /-- in the locked section nobody leaves the queue but by the call -/
  locked : s.call ≠ .idle → op ≠ .wake → op ≠ .finish →
    s'.wait.list = s.wait.list ∧ s'.wait.woken = s.wait.woken ∧ s'.call = s.call

/-! ## the invariant -/

/-- what the call in progress knows -/
def CallOk (s : EventT) : Prop :=
  match s.call with
  | .idle => True
  | .signalling _ => s.signaled = false
  | .setting _ => s.autounsignal = true ∧ s.signaled = false ∧ s.wait.list = []
  | .waking => s.autounsignal = false
  | .taking _ => s.autounsignal = true ∧ s.slot = none ∧ s.wait.list = []

structure EventInv (s : EventT) : Prop where
  wf : s.wait.Wf
  call : s.CallOk
  slot : s.slot.isSome → s.autounsignal = true ∧ s.signaled = true ∧ s.wait.list = []
  flag : s.autounsignal = true → s.signaled = true → s.slot.isSome ∨ ∃ t, s.call = .taking t
  free : s.autounsignal = false → s.signaled = true → s.wait.list = [] ∨ s.call = .waking
  each : s.autounsignal = true → (s.pending ++ s.slot.toList ++ s.released.map Prod.fst ++ s.cleared).Perm
    (List.range s.signals)
  own : s.autounsignal = true → (s.released.map Prod.snd).Perm (s.passed ++ s.passing ++ s.wait.grantedTo)

section
variable {s s' : EventT} {auto initial : Bool}

theorem EventInv.exact (h : EventInv s) : EventExact s where
  each := h.each
  own := h.own
  flag ha hc := by
    refine ⟨fun hs => ?_, fun hs => (h.slot hs).2.1⟩
    rcases h.flag ha hs with hs | ⟨t, ht⟩
    · exact hs
    · rw [hc] at ht
      cases ht
  free hc hs := by
    cases ha : s.autounsignal with
    | true =>
      rcases h.flag ha hs with hs | ⟨t, ht⟩
      · exact (h.slot hs).2.2
      · rw [hc] at ht
        cases ht
    | false =>
      rcases h.free ha hs with hl | hw
      · exact hl
      · rw [hc] at hw
        cases hw
  once := h.wf

/-- the flag is clear only with nothing in it -/
theorem EventInv.slot_none (h : EventInv s) (hs : s.signaled = false) : s.slot = none := by
  cases hsl : s.slot with
  | none => rfl
  | some n =>
    have := (h.slot (by rw [hsl]; rfl)).2.1
    rw [hs] at this
    cases this

theorem EventInv.init : EventInv (eventInit auto initial) := by
  refine ⟨.init, trivial, fun h => ?_, fun ha hs => .inl ?_, fun _ _ => .inl rfl, fun ha => ?_,
    fun _ => List.Perm.refl _⟩
  · unfold eventInit at h ⊢
    cases auto <;> cases initial <;> try cases h
    exact ⟨rfl, rfl, rfl⟩
  · unfold eventInit at ha hs ⊢
    cases ha
    cases hs
    rfl
  · cases ha
    cases initial <;> exact List.Perm.refl _

theorem EventInv.signal (h : EventInv s) (hc : s.call = .idle) : EventInv s.eventSignal := by
  unfold eventSignal
  split
  · exact h
  · rename_i hs
    have hs : s.signaled = false := by simpa using hs
    have hp : s.pending = [] := by
      unfold pending
      rw [hc]
    have hq : s.passing = [] := by
      unfold passing
      rw [hc]
    refine ⟨h.wf, hs, h.slot, fun _ h1 => ?_, fun _ h1 => ?_, fun ha => ?_, fun ha => ?_⟩
    · exact absurd (hs.symm.trans h1) (by decide)
    · exact absurd (hs.symm.trans h1) (by decide)
    · have := h.each ha
      rw [hp, List.nil_append] at this
      show ([s.signals] ++ s.slot.toList ++ s.released.map Prod.fst ++ s.cleared).Perm (List.range (s.signals + 1))
      rw [List.range_succ, List.append_assoc [s.signals], List.append_assoc [s.signals]]
      exact (this.cons s.signals).trans (List.perm_append_singleton _ _).symm
    · have := h.own ha
      rw [hq] at this
      exact this

theorem EventInv.wake (h : EventInv s) (hs : s.eventWake = some s') : EventInv s' := by
  unfold eventWake at hs
  cases hc : s.call <;> rw [hc] at hs <;> try cases hs
  rename_i n
  have hcall := h.call
  unfold CallOk at hcall
  rw [hc] at hcall
  have hsig : s.signaled = false := hcall
  have hp : s.pending = [n] := by
    unfold pending
    rw [hc]
  have hq : s.passing = [] := by
    unfold passing
    rw [hc]
  dsimp only at hs
  split at hs
  · rename_i ha
    cases hl : s.wait.list with
    | nil =>
      rw [hl] at hs
      cases hs
      refine ⟨h.wf, ⟨ha, hsig, hl⟩, h.slot, fun _ h1 => ?_, fun h1 => ?_, fun ha => ?_, fun ha => ?_⟩
      · exact absurd (hsig.symm.trans h1) (by decide)
      · exact absurd (ha.symm.trans h1) (by decide)
      · have := h.each ha
        rw [hp] at this
        exact this
      · have := h.own ha
        rw [hq] at this
        exact this
    | cons w l =>
      rw [hl] at hs
      cases hs
      obtain ⟨h1, h2, h3⟩ := WaitQueue.grantedTo_wakeOne hl
      refine ⟨h.wf.perm WaitQueue.threads_wakeOne, trivial, fun hsl => ?_, fun _ h1 => ?_, fun h1 => ?_,
        fun ha => ?_, fun ha => ?_⟩
      · exact absurd (hsig.symm.trans (h.slot hsl).2.1) (by decide)
      · exact absurd (hsig.symm.trans h1) (by decide)
      · exact absurd (ha.symm.trans h1) (by decide)
      · have := h.each ha
        rw [hp] at this
        show ([] ++ s.slot.toList ++ (n :: s.released.map Prod.fst) ++ s.cleared).Perm _
        refine List.Perm.trans ?_ this
        simp only [List.nil_append, List.append_assoc, List.cons_append]
        exact List.perm_middle
      · have := h.own ha
        rw [hq, List.append_nil] at this
        show (w.thread :: s.released.map Prod.snd).Perm (s.passed ++ [] ++ s.wait.wakeOne.grantedTo)
        rw [h3, List.append_nil]
        exact (this.cons w.thread).trans List.perm_middle.symm
  · rename_i ha
    cases hs
    have ha : s.autounsignal = false := by simpa using ha
    exact ⟨h.wf, ha, fun hsl => ⟨(h.slot hsl).1, rfl, (h.slot hsl).2.2⟩,
      fun h1 => absurd (ha.symm.trans h1) (by decide), fun _ _ => .inr rfl,
      fun h1 => absurd (ha.symm.trans h1) (by decide), fun h1 => absurd (ha.symm.trans h1) (by decide)⟩

theorem EventInv.finish (h : EventInv s) (hs : s.eventFinish = some s') : EventInv s' := by
  unfold eventFinish at hs
  have hcall := h.call
  unfold CallOk at hcall
  cases hc : s.call <;> rw [hc] at hs hcall <;> try cases hs
  case setting n =>
    obtain ⟨ha, hsig, hl⟩ := hcall
    have hsl := h.slot_none hsig
    have hp : s.pending = [n] := by
      unfold pending
      rw [hc]
    have hq : s.passing = [] := by
      unfold passing
      rw [hc]
    refine ⟨h.wf, trivial, fun _ => ⟨ha, rfl, hl⟩, fun _ _ => .inl rfl, fun h1 => ?_, fun ha => ?_, fun ha => ?_⟩
    · exact absurd (ha.symm.trans h1) (by decide)
    · have := h.each ha
      rw [hp, hsl] at this
      exact this
    · have := h.own ha
      rw [hq] at this
      exact this
  case waking =>
    have ha : s.autounsignal = false := hcall
    exact ⟨h.wf.perm WaitQueue.threads_wakeAll, trivial, fun hsl => ⟨(h.slot hsl).1, (h.slot hsl).2.1, rfl⟩,
      fun h1 => absurd (ha.symm.trans h1) (by decide), fun _ _ => .inl rfl,
      fun h1 => absurd (ha.symm.trans h1) (by decide), fun h1 => absurd (ha.symm.trans h1) (by decide)⟩
  case taking t =>
    obtain ⟨ha, hsl, hl⟩ := hcall
    have hp : s.pending = [] := by
      unfold pending
      rw [hc]
    have hq : s.passing = [t] := by
      unfold passing
      rw [hc]
    refine ⟨h.wf, trivial, fun h1 => ?_, fun _ h1 => ?_, fun h1 => ?_, fun ha => ?_, fun ha => ?_⟩
    · change s.slot.isSome = true at h1
      rw [hsl] at h1
      cases h1
    · cases h1
    · exact absurd (ha.symm.trans h1) (by decide)
    · have := h.each ha
      rw [hp] at this
      exact this
    · have := h.own ha
      rw [hq] at this
      show (s.released.map Prod.snd).Perm (t :: s.passed ++ [] ++ s.wait.grantedTo)
      rw [List.append_nil]
      exact this.trans ((List.perm_append_singleton t s.passed).append_right _)

theorem EventInv.waitTimeout (h : EventInv s) (hc : s.call = .idle) {t timeout : Nat} (ht : t ∉ s.wait.threads) :
    EventInv (s.eventWaitTimeout t timeout) := by
  have hp : s.pending = [] := by
    unfold pending
    rw [hc]
  have hq : s.passing = [] := by
    unfold passing
    rw [hc]
  unfold eventWaitTimeout
  split
  · rename_i hs
    split
    · -- the signal goes to the thread
      rename_i ha
      obtain ⟨n, hsl⟩ : ∃ n, s.slot = some n := by
        rcases h.flag ha hs with hsl | ⟨t, ht⟩
        · exact Option.isSome_iff_exists.mp hsl
        · rw [hc] at ht
          cases ht
      rw [hsl]
      have hl := (h.slot (by rw [hsl]; rfl)).2.2
      refine ⟨h.wf, ⟨ha, rfl, hl⟩, (fun h1 => by cases h1), fun _ _ => .inr ⟨t, rfl⟩, fun h1 => ?_,
        fun ha => ?_, fun ha => ?_⟩
      · exact absurd (ha.symm.trans h1) (by decide)
      · have := h.each ha
        rw [hp, hsl] at this
        exact this
      · have := h.own ha
        rw [hq, List.append_nil] at this
        show (t :: s.released.map Prod.snd).Perm (s.passed ++ [t] ++ s.wait.grantedTo)
        rw [List.append_assoc]
        exact (this.cons t).trans List.perm_middle.symm
    · rename_i ha
      have ha : s.autounsignal = false := by simpa using ha
      exact ⟨h.wf, h.call, h.slot, h.flag, h.free, fun h1 => absurd (ha.symm.trans h1) (by decide),
        fun h1 => absurd (ha.symm.trans h1) (by decide)⟩
  · rename_i hs
    have hs : s.signaled = false := by simpa using hs
    have hsl := h.slot_none hs
    split
    · exact ⟨h.wf, h.call, h.slot, h.flag, h.free, h.each, h.own⟩
    · refine ⟨h.wf.block ht timeout, ?_, fun h1 => ?_, h.flag, fun _ h1 => ?_, h.each, h.own⟩
      · unfold CallOk
        dsimp only
        rw [hc]
        trivial
      · change s.slot.isSome = true at h1
        rw [hsl] at h1
        cases h1
      · exact absurd (hs.symm.trans h1) (by decide)

theorem EventInv.unsignal (h : EventInv s) : EventInv s.eventUnsignal := by
  have hcall := h.call
  refine ⟨h.wf, ?_, (fun h1 => by cases h1), (fun _ h1 => by cases h1), (fun _ h1 => by cases h1), fun ha => ?_,
    h.own⟩
  · unfold CallOk eventUnsignal at *
    dsimp only
    cases hc : s.call <;> rw [hc] at hcall
    case idle => trivial
    case setting => exact ⟨hcall.1, rfl, hcall.2.2⟩
    case waking => exact hcall
    case taking => exact ⟨hcall.1, rfl, hcall.2.2⟩
  · refine List.Perm.trans ?_ (h.each ha)
    show (s.pending ++ [] ++ s.released.map Prod.fst ++ (s.slot.toList ++ s.cleared)).Perm _
    rw [List.append_nil, List.append_assoc, List.append_assoc, List.append_assoc]
    refine List.Perm.append_left _ ?_
    rw [← List.append_assoc, ← List.append_assoc]
    exact List.perm_append_comm.append_right _

/-- steps of the timers and of the scheduler: nobody is added to the queue -/
theorem EventInv.queue (h : EventInv s) {q : WaitQueue} (hwf : q.Wf) (hl : s.wait.list = [] → q.list = [])
    {r : List (Nat × WaitRet)} (ho : (s.passed ++ s.passing ++ s.wait.grantedTo).Perm
      (passed { s with returns := r } ++ s.passing ++ q.grantedTo)) :
    EventInv { s with wait := q, returns := r } := by
  have hcall := h.call
  refine ⟨hwf, ?_, fun hsl => ?_, h.flag, fun ha hs => ?_, h.each, fun ha => ?_⟩
  · unfold CallOk at *
    dsimp only
    cases hc : s.call <;> rw [hc] at hcall
    case setting => exact ⟨hcall.1, hcall.2.1, hl hcall.2.2⟩
    case taking => exact ⟨hcall.1, hcall.2.1, hl hcall.2.2⟩
    all_goals exact hcall
  · obtain ⟨h1, h2, h3⟩ := h.slot hsl
    exact ⟨h1, h2, hl h3⟩
  · rcases h.free ha hs with h1 | h1
    · exact .inl (hl h1)
    · exact .inr h1
  · exact (h.own ha).trans ho

theorem EventInv.step (h : EventInv s) {op : EventOp} (hs : eventStep s op = some s') : EventInv s' := by
  cases op with
  | signal =>
    dsimp only [eventStep] at hs
    split at hs
    · rename_i hc
      cases hs
      exact h.signal hc
    · cases hs
  | wake => exact h.wake hs
  | finish => exact h.finish hs
  | waitTimeout t timeout =>
    dsimp only [eventStep] at hs
    split at hs
    · rename_i hc
      cases hs
      exact h.waitTimeout hc.1 hc.2
    · cases hs
  | unsignal =>
    cases hs
    exact h.unsignal
  | resume t =>
    dsimp only [eventStep] at hs
    split at hs
    · rename_i hc
      obtain ⟨⟨ret, q⟩, hq, rfl⟩ := Option.map_eq_some_iff.mp hs
      have hp : s.passing = [] := by
        unfold passing
        rw [hc]
      refine h.queue (h.wf.resume hq).1 (fun hl => (WaitQueue.resume_some hq).1.trans hl) ?_
      rw [hp, List.append_nil, List.append_nil]
      refine ((WaitQueue.grantedTo_resume hq).append_left _).trans ?_
      cases ret with
      | noError => exact List.perm_middle
      | timedOut => exact List.Perm.refl _
    · cases hs
  | timerTick t =>
    obtain ⟨q, hq, rfl⟩ := Option.map_eq_some_iff.mp hs
    obtain ⟨hl, hw⟩ := WaitQueue.timerTick_eq hq
    refine h.queue (h.wf.same hl hw) (fun h0 => hl.trans h0) ?_
    unfold WaitQueue.grantedTo
    rw [hw]
  | timeoutHandler t =>
    dsimp only [eventStep] at hs
    split at hs
    · obtain ⟨q, hq, rfl⟩ := Option.map_eq_some_iff.mp hs
      refine h.queue (h.wf.perm (WaitQueue.threads_timeoutHandler hq)) (fun h0 => ?_) ?_
      · rcases WaitQueue.timeoutHandler_cases hq with ⟨hl, -⟩ | ⟨w, hl, -⟩
        · exact hl.trans h0
        · rw [h0] at hl
          exact absurd hl.symm (List.cons_ne_nil _ _ ∘ List.Perm.eq_nil)
      · rw [WaitQueue.grantedTo_timeoutHandler hq]
    · cases hs
  | elsewhere t =>
    dsimp only [eventStep] at hs
    split at hs
    · cases hs
    · cases hs
      exact h.queue (q := s.wait.elsewhere t) (h.wf.same rfl rfl) id (List.Perm.refl _)

/-! ## one step -/

/-- a step outside the locked sections that gives no signal away -/
theorem SignalStep.quiet {op : EventOp} (hop : op ≠ .finish) (hcall : s.call = .idle)
    (hr : s'.released = s.released) (hc : s'.cleared = s.cleared) (hsl : s'.slot = s.slot)
    (hn : ∀ t timeout, op = .waitTimeout t timeout → s.slot = none) : SignalStep s op s' where
  kept := ⟨hr ▸ List.suffix_rfl, hc ▸ List.suffix_rfl⟩
  sent _ n hm := by
    unfold pending at hm
    rw [hcall] at hm
    cases hm
  held n hs := .inl (hsl.trans hs)
  next n t timeout hs ht := by
    rw [hn t timeout ht] at hs
    cases hs
  set _ n hm := by
    unfold pending at hm
    rw [hcall] at hm
    cases hm
  all _ hf := absurd hf hop
  locked h1 := absurd hcall h1

/-- a step without `thread_lock` that gives no signal away -/
theorem SignalStep.unlocked {op : EventOp} (hop : op ≠ .finish) (hn : ∀ t timeout, op ≠ .waitTimeout t timeout)
    (hl : s'.wait.list = s.wait.list) (hw : s'.wait.woken = s.wait.woken) (hcall : s'.call = s.call)
    (hr : s'.released = s.released) (hc : s.cleared <:+ s'.cleared)
    (hsl : ∀ n, s.slot = some n → s'.slot = some n ∨ (op = .unsignal ∧ s'.cleared = n :: s.cleared)) :
    SignalStep s op s' where
  kept := ⟨hr ▸ List.suffix_rfl, hc⟩
  sent _ n hm := by
    left
    unfold pending at *
    rw [hcall]
    exact hm
  held n hs := by
    rcases hsl n hs with h1 | h1
    · exact .inl h1
    · exact .inr (.inl h1)
  next n t timeout _ ht := absurd ht (hn t timeout)
  set _ n hm := by
    left
    unfold pending at *
    rw [hcall]
    exact hm
  all _ hf := absurd hf hop
  locked _ _ _ := ⟨hl, hw, hcall⟩

theorem EventInv.wake_step (h : EventInv s) (hs : s.eventWake = some s') : SignalStep s .wake s' := by
  unfold eventWake at hs
  cases hc : s.call <;> rw [hc] at hs <;> try cases hs
  rename_i n
  have hcall := h.call
  unfold CallOk at hcall
  rw [hc] at hcall
  have hsl := h.slot_none hcall
  have hp : s.pending = [n] := by
    unfold pending
    rw [hc]
  have hno : ∀ m, s.slot = some m → False := fun m hm => by
    rw [hsl] at hm
    cases hm
  dsimp only at hs
  split at hs
  · rename_i ha
    cases hl : s.wait.list with
    | nil =>
      rw [hl] at hs
      cases hs
      exact ⟨⟨List.suffix_rfl, List.suffix_rfl⟩, fun _ m hm => .inl (by rwa [hp] at hm), fun m hm => (hno m hm).elim,
        fun m _ _ hm => (hno m hm).elim, fun _ m hm => .inl (by rwa [hp] at hm), (fun _ h1 => nomatch h1),
        fun _ h1 => absurd rfl h1⟩
    | cons w l =>
      rw [hl] at hs
      cases hs
      refine ⟨⟨List.suffix_cons _ _, List.suffix_rfl⟩, fun _ m hm => .inr (.inr ⟨w, hl ▸ List.mem_cons_self, ?_, ?_⟩),
        fun m hm => (hno m hm).elim, fun m _ _ hm => (hno m hm).elim, fun h1 => ?_, (fun _ h1 => nomatch h1),
        fun _ h1 => absurd rfl h1⟩
      · rw [hp, List.mem_singleton] at hm
        rw [hm]
      · show _ ∈ s.wait.wakeOne.woken
        rw [(WaitQueue.grantedTo_wakeOne hl).2.1]
        exact List.mem_cons_self
      · exact absurd (ha.symm.trans h1) (by decide)
  · rename_i ha
    cases hs
    exact ⟨⟨List.suffix_rfl, List.suffix_rfl⟩, fun h1 => absurd h1 ha, fun m hm => (hno m hm).elim,
      fun m _ _ hm => (hno m hm).elim, fun _ m hm => .inr ⟨rfl, rfl, rfl⟩, (fun _ h1 => nomatch h1),
      fun _ h1 => absurd rfl h1⟩

theorem EventInv.finish_step (h : EventInv s) (hs : s.eventFinish = some s') : SignalStep s .finish s' := by
  unfold eventFinish at hs
  have hcall := h.call
  unfold CallOk at hcall
  cases hc : s.call <;> rw [hc] at hs hcall <;> try cases hs
  case setting n =>
    obtain ⟨ha, hsig, hl⟩ := hcall
    have hsl := h.slot_none hsig
    have hp : s.pending = [n] := by
      unfold pending
      rw [hc]
    refine ⟨⟨List.suffix_rfl, List.suffix_rfl⟩, fun _ m hm => .inr (.inl ⟨hl, ?_⟩), fun m hm => ?_,
      (fun m _ _ _ h1 => nomatch h1), fun h1 => ?_, fun h1 => ?_, fun _ _ h1 => absurd rfl h1⟩
    · rw [hp, List.mem_singleton] at hm
      rw [hm]
    · rw [hsl] at hm
      cases hm
    · exact absurd (ha.symm.trans h1) (by decide)
    · rw [hc] at h1
      cases h1
  case waking =>
    have hp : s.pending = [] := by
      unfold pending
      rw [hc]
    refine ⟨⟨List.suffix_rfl, List.suffix_rfl⟩, fun _ m hm => ?_, fun m hm => .inl hm, (fun m _ _ _ h1 => nomatch h1),
      fun _ m hm => ?_, fun _ _ => ⟨rfl, fun w hw => ?_⟩, fun _ _ h1 => absurd rfl h1⟩
    · rw [hp] at hm
      cases hm
    · rw [hp] at hm
      cases hm
    · refine List.mem_append_left _ ?_
      rw [List.mem_reverse]
      exact List.mem_map_of_mem hw
  case taking t =>
    have hp : s.pending = [] := by
      unfold pending
      rw [hc]
    refine ⟨⟨List.suffix_rfl, List.suffix_rfl⟩, fun _ m hm => ?_, fun m hm => .inl hm, (fun m _ _ _ h1 => nomatch h1),
      fun _ m hm => ?_, fun h1 => ?_, fun _ _ h1 => absurd rfl h1⟩
    · rw [hp] at hm
      cases hm
    · rw [hp] at hm
      cases hm
    · rw [hc] at h1
      cases h1

theorem EventInv.waitTimeout_step (h : EventInv s) (hc : s.call = .idle) {t timeout : Nat} :
    SignalStep s (.waitTimeout t timeout) (s.eventWaitTimeout t timeout) := by
  have hp : s.pending = [] := by
    unfold pending
    rw [hc]
  unfold eventWaitTimeout
  split
  · rename_i hs
    split
    · refine ⟨⟨List.suffix_append _ _, List.suffix_rfl⟩, fun _ m hm => ?_, fun m hm => .inr (.inr ⟨t, timeout, rfl⟩),
        fun m u _ hm h1 => ?_, fun _ m hm => ?_, (fun _ h1 => nomatch h1), fun h1 => absurd hc h1⟩
      · rw [hp] at hm
        cases hm
      · cases h1
        dsimp only
        rw [hm]
        rfl
      · rw [hp] at hm
        cases hm
    · rename_i ha
      refine .quiet (by simp) hc rfl rfl rfl fun _ _ _ => ?_
      cases hsl : s.slot with
      | none => rfl
      | some n => exact absurd (h.slot (by rw [hsl]; rfl)).1 ha
  · rename_i hs
    have hsl := h.slot_none (by simpa using hs)
    split
    · exact .quiet (by simp) hc rfl rfl rfl fun _ _ _ => hsl
    · exact .quiet (by simp) hc rfl rfl rfl fun _ _ _ => hsl

theorem EventInv.signal_step (h : EventInv s) {op : EventOp} (hs : eventStep s op = some s') :
    SignalStep s op s' := by
  cases op with
  | signal =>
    dsimp only [eventStep] at hs
    split at hs
    · rename_i hc
      cases hs
      unfold eventSignal
      split
      · exact .quiet (by simp) hc rfl rfl rfl fun _ _ h1 => nomatch h1
      · exact .quiet (by simp) hc rfl rfl rfl fun _ _ h1 => nomatch h1
    · cases hs
  | wake => exact h.wake_step hs
  | finish => exact h.finish_step hs
  | waitTimeout t timeout =>
    dsimp only [eventStep] at hs
    split at hs
    · rename_i hc
      cases hs
      exact h.waitTimeout_step hc.1
    · cases hs
  | unsignal =>
    cases hs
    refine .unlocked (by simp) (by simp) rfl rfl rfl rfl (List.suffix_append _ _) fun n hn => .inr ⟨rfl, ?_⟩
    unfold eventUnsignal
    rw [hn]
    rfl
  | resume t =>
    dsimp only [eventStep] at hs
    split at hs
    · rename_i hc
      obtain ⟨r, -, rfl⟩ := Option.map_eq_some_iff.mp hs
      exact .quiet (by simp) hc rfl rfl rfl fun _ _ h1 => nomatch h1
    · cases hs
  | timerTick t =>
    obtain ⟨q, hq, rfl⟩ := Option.map_eq_some_iff.mp hs
    obtain ⟨hl, hw⟩ := WaitQueue.timerTick_eq hq
    exact .unlocked (by simp) (by simp) hl hw rfl rfl List.suffix_rfl fun n hn => .inl hn
  | timeoutHandler t =>
    dsimp only [eventStep] at hs
    split at hs
    · rename_i hc
      obtain ⟨q, -, rfl⟩ := Option.map_eq_some_iff.mp hs
      exact .quiet (by simp) hc rfl rfl rfl fun _ _ h1 => nomatch h1
    · cases hs
  | elsewhere t =>
    dsimp only [eventStep] at hs
    split at hs
    · cases hs
    · cases hs
      exact .unlocked (by simp) (by simp) rfl rfl rfl rfl List.suffix_rfl fun n hn => .inl hn

theorem autounsignal_step {op : EventOp} (hs : eventStep s op = some s') : s'.autounsignal = s.autounsignal := by
  cases op with
  | signal =>
    dsimp only [eventStep] at hs
    split at hs
    · cases hs
      unfold eventSignal
      split <;> rfl
    · cases hs
  | wake =>
    dsimp only [eventStep, eventWake] at hs
    split at hs
    · split at hs
      · split at hs <;> cases hs <;> rfl
      · cases hs
        rfl
    · cases hs
  | finish =>
    dsimp only [eventStep, eventFinish] at hs
    split at hs <;> cases hs <;> rfl
  | waitTimeout t timeout =>
    dsimp only [eventStep] at hs
    split at hs
    · cases hs
      unfold eventWaitTimeout
      split
      · split <;> rfl
      · split <;> rfl
    · cases hs
  | unsignal =>
    cases hs
    rfl
  | resume t =>
    dsimp only [eventStep] at hs
    split at hs
    · obtain ⟨r, -, rfl⟩ := Option.map_eq_some_iff.mp hs
      rfl
    · cases hs
  | timerTick t =>
    obtain ⟨q, -, rfl⟩ := Option.map_eq_some_iff.mp hs
    rfl
  | timeoutHandler t =>
    dsimp only [eventStep] at hs
    split at hs
    · obtain ⟨q, -, rfl⟩ := Option.map_eq_some_iff.mp hs
      rfl
    · cases hs
  | elsewhere t =>
    dsimp only [eventStep] at hs
    split at hs
    · cases hs
    · cases hs
      rfl

/-- the flag of a plain event stays until `event_unsignal` -/
theorem EventInv.stays (h : EventInv s) (ha : s.autounsignal = false) (hsig : s.signaled = true) {op : EventOp}
    (hop : op ≠ .unsignal) (hs : eventStep s op = some s') : s'.signaled = true := by
  have hcall := h.call
  unfold CallOk at hcall
  cases op with
  | signal =>
    dsimp only [eventStep] at hs
    split at hs
    · cases hs
      unfold eventSignal
      rwa [if_pos hsig]
    · cases hs
  | wake =>
    dsimp only [eventStep, eventWake] at hs
    split at hs
    · split at hs
      · rename_i h1
        exact absurd (ha.symm.trans h1) (by decide)
      · cases hs
        rfl
    · cases hs
  | finish =>
    dsimp only [eventStep, eventFinish] at hs
    cases hc : s.call <;> rw [hc] at hs hcall <;> cases hs
    · rfl
    · exact hsig
    · exact absurd (ha.symm.trans hcall.1) (by decide)
  | waitTimeout t timeout =>
    dsimp only [eventStep] at hs
    split at hs
    · cases hs
      unfold eventWaitTimeout
      rw [if_pos hsig, if_neg (by rw [ha]; decide)]
      exact hsig
    · cases hs
  | unsignal => exact absurd rfl hop
  | resume t =>
    dsimp only [eventStep] at hs
    split at hs
    · obtain ⟨r, -, rfl⟩ := Option.map_eq_some_iff.mp hs
      exact hsig
    · cases hs
  | timerTick t =>
    obtain ⟨q, -, rfl⟩ := Option.map_eq_some_iff.mp hs
    exact hsig
  | timeoutHandler t =>
    dsimp only [eventStep] at hs
    split at hs
    · obtain ⟨q, -, rfl⟩ := Option.map_eq_some_iff.mp hs
      exact hsig
    · cases hs
  | elsewhere t =>
    dsimp only [eventStep] at hs
    split at hs
    · cases hs
    · cases hs
      exact hsig

/-! ## runs -/

/-- a wait that returns `NO_ERROR` at once -/
def Returns (s : EventT) (t : Nat) (s' : EventT) : Prop := s'.wait = s.wait ∧ s'.returns = (t, .noError) :: s.returns

/-- The flag of a plain event stays set, and every wait returns at once. -/
def StaysSignaled (s : EventT) : Prop :=
  s.signaled = true ∧ ∀ t timeout s', eventStep s (.waitTimeout t timeout) = some s' → s.Returns t s'

theorem reach_inv (hr : (eventSys auto initial).Reach s) : EventInv s ∧ s.autounsignal = auto :=
  hr.invariant (I := fun s => EventInv s ∧ s.autounsignal = auto)
    (fun _ h0 => by
      cases h0
      exact ⟨.init, rfl⟩)
    fun _ _ _ h _ hs => ⟨h.1.step hs, (autounsignal_step hs).trans h.2⟩

theorem waitTimeout_returns (ha : s.autounsignal = false) (hsig : s.signaled = true) {t timeout : Nat}
    (hs : eventStep s (.waitTimeout t timeout) = some s') : s.Returns t s' := by
  dsimp only [eventStep] at hs
  split at hs
  · cases hs
    unfold eventWaitTimeout
    rw [if_pos hsig, if_neg (by rw [ha]; decide)]
    exact ⟨rfl, rfl⟩
  · cases hs

theorem path_stays {s t : EventT} (h : EventInv s) (ha : s.autounsignal = false) (hsig : s.signaled = true)
    (hp : (eventSys auto initial).Path (fun _ op => op ≠ .unsignal) s t) : t.StaysSignaled := by
  have ht := hp.invariant (I := fun u => EventInv u ∧ u.autounsignal = false ∧ u.signaled = true)
    (fun _ _ _ hi hop hs => ⟨hi.1.step hs, (autounsignal_step hs).trans hi.2.1, hi.1.stays hi.2.1 hi.2.2 hop hs⟩)
    ⟨h, ha, hsig⟩
  exact ⟨ht.2.2, fun _ _ _ hs => waitTimeout_returns ht.2.1 ht.2.2 hs⟩

/-- **Event semantics.**  No signal of an auto-unsignal event is lost or releases two threads, and each of its
steps takes a signal where it belongs; a plain event lets everybody pass until it is cleared. -/
theorem event_semantics (hr : (eventSys auto initial).Reach s) :
    EventExact s ∧ (∀ op s', eventStep s op = some s' → SignalStep s op s') ∧
      (auto = false → s.signaled = true →
        ∀ t, (eventSys auto initial).Path (fun _ op => op ≠ .unsignal) s t → t.StaysSignaled) := by
  obtain ⟨hi, ha⟩ := reach_inv hr
  exact ⟨hi.exact, fun _ _ hs => hi.signal_step hs, fun h1 hsig _ hp => path_stays hi (ha.trans h1) hsig hp⟩

end

/-- the theorem after a signal between a timer and its handler, and a second one with nobody left -/
theorem event_semantics_timeout : ∃ s,
    Machine.exec eventStep (eventInit true false)
      [.waitTimeout 1 5, .timerTick 1, .signal, .wake, .timeoutHandler 1, .resume 1, .signal, .wake, .finish] =
        some s ∧ s.returns = [(1, .noError)] ∧ s.slot = some 1 ∧ EventExact s := by
  have h0 : (eventSys true false).Reach (eventInit true false) := .init rfl
  obtain ⟨s, hs, hr, hsl⟩ : ∃ s, Machine.exec eventStep (eventInit true false)
      [.waitTimeout 1 5, .timerTick 1, .signal, .wake, .timeoutHandler 1, .resume 1, .signal, .wake, .finish] =
        some s ∧ s.returns = [(1, .noError)] ∧ s.slot = some 1 :=
    ⟨_, rfl, by decide, by decide⟩
  exact ⟨s, hs, hr, hsl, (event_semantics (h0.exec _ hs)).1⟩

end EventT
end LkHv
