import LkHv.Kernel.Timer

/-!
# Timers on several CPUs (`kernel/timer.c`)

Every critical section of `timer_lock` is one step, and so is every access to a timer that is made without the lock:
the writes of `timer_set`, and the reads of `timer_tick` before it calls the callback.  What a callback does while it
runs are calls of its own.

* `timerSet`, `setNext`     `timer_set`: its check, and the accesses and the critical section that follow it;
* `timerCancel`             one critical section;
* `tickPeek`, `tickNext`    the critical section of `timer_tick`, and the accesses between two of them;
* `Safe`                    which callbacks are called, and where the timers are linked;
* `Apart`                   no call cuts into a tick or another call that has the timer in hand;
* `timers_safe`             every run of such steps is safe;
* `timers_safe_fails`       a timer is cancelled between two accesses of the tick.
-/

namespace LkHv.TimerSmp
open Serial TimerQueue

/-! ## the state -/

/-- the next access of `timer_set` -/
inductive SetAt where
  | scheduledTime
  | periodicTime
  | callback
  | arg
  /-- the critical section -/
  | insert
  deriving DecidableEq

/-- a call of `timer_set` that has passed its check -/
structure SetCall where
  timer : Nat
  /-- `current_time()` -/
  now : LkTime
  delay : LkTime
  period : LkTime
  callback : Option Nat
  arg : Nat
  pc : SetAt

/-- where `timer_tick` stands, with what it has read -/
inductive TickAt where
  | out
  /-- the timer is unlinked and the lock is dropped -/
  | unlinked (t : Nat) (now : LkTime)
  | periodRead (t : Nat) (now : LkTime) (periodic : Bool)
  | callbackRead (t : Nat) (now : LkTime) (periodic : Bool) (callback : Option Nat)
  | argRead (t : Nat) (now : LkTime) (periodic : Bool) (callback : Option Nat) (arg : Nat)
  /-- the callback runs -/
  | called (t : Nat) (now : LkTime) (periodic : Bool)

/-- a call of a callback's -/
structure Fired where
  timer : Nat
  callback : Option Nat
  arg : Nat
  /-- the callback of the timer at this moment -/
  current : Option Nat
  /-- the timer was cancelled and is not set again -/
  cancelled : Bool
  deriving DecidableEq

/-- `n` CPUs; `κ` are the threads and callbacks that call `timer_set` -/
structure Smp (n : Nat) (κ : Type) where
  timer : Nat → Timer
  timerQueue : Fin n → List Nat
  /-- the interval the hardware timer was given last -/
  hw : Fin n → Option LkTime
  setting : κ → Option SetCall
  tick : Fin n → TickAt
  /-- monitor: `timer_cancel` has returned, and no `timer_set` has since -/
  cancelled : Nat → Bool
  /-- monitor: the callbacks that were called, the last first -/
  fired : List Fired

variable {n : Nat} {κ : Type}

namespace Smp

/-- `list_in_list` -/
def Linked (s : Smp n κ) (t : Nat) : Prop := ∃ c, t ∈ s.timerQueue c

instance (s : Smp n κ) (t : Nat) : Decidable (s.Linked t) := inferInstanceAs (Decidable (∃ c, t ∈ s.timerQueue c))

/-- the fields of a timer are written -/
def write (s : Smp n κ) (t : Nat) (x : Timer) : Smp n κ := { s with timer := Function.update s.timer t x }

/-- `insert_timer_in_queue` -/
def insert (s : Smp n κ) (cpu : Fin n) (t : Nat) : Smp n κ :=
  { s with timerQueue := Function.update s.timerQueue cpu (insertTimerInQueue s.timer t (s.timerQueue cpu)) }

def setAt [DecidableEq κ] (s : Smp n κ) (c : κ) (call : Option SetCall) : Smp n κ :=
  { s with setting := Function.update s.setting c call }

def tickAt (s : Smp n κ) (cpu : Fin n) (pc : TickAt) : Smp n κ := { s with tick := Function.update s.tick cpu pc }

theorem tickAt_self (s : Smp n κ) (cpu : Fin n) (pc : TickAt) : (s.tickAt cpu pc).tick cpu = pc :=
  Function.update_self _ _ _

theorem tickAt_of_ne {s : Smp n κ} {cpu d : Fin n} (h : d ≠ cpu) (pc : TickAt) : (s.tickAt cpu pc).tick d = s.tick d :=
  Function.update_of_ne h _ _

def program (s : Smp n κ) (cpu : Fin n) (interval : Option LkTime) : Smp n κ :=
  { s with hw := Function.update s.hw cpu interval }

end Smp

/-! ## the calls -/

section
variable [DecidableEq κ]

/-- `timer_set` up to its check; it panics if the timer is linked -/
def timerSet (s : Smp n κ) (c : κ) (call : SetCall) : Option (Smp n κ) :=
  if (s.setting c).isSome ∨ s.Linked call.timer then none else some (s.setAt c (some call))

def timerSetOneshot (s : Smp n κ) (c : κ) (t : Nat) (now delay : LkTime) (callback : Option Nat) (arg : Nat) :
    Option (Smp n κ) :=
  timerSet s c ⟨t, now, if delay = 0 then 1 else delay, 0, callback, arg, .scheduledTime⟩

def timerSetPeriodic (s : Smp n κ) (c : κ) (t : Nat) (now period : LkTime) (callback : Option Nat) (arg : Nat) :
    Option (Smp n κ) :=
  let period := if period = 0 then 1 else period
  timerSet s c ⟨t, now, period, period, callback, arg, .scheduledTime⟩

/-- the critical section of `timer_set` -/
def setInsert (s : Smp n κ) (c : κ) (cpu : Fin n) (call : SetCall) : Smp n κ :=
  let s := s.insert cpu call.timer
  let s := if (s.timerQueue cpu).head? = some call.timer then s.program cpu (some call.delay) else s
  { s.setAt c none with cancelled := Function.update s.cancelled call.timer false }

/-- `timer_set` after its check goes on by one access; it runs on `cpu` when it takes the lock -/
def setNext (s : Smp n κ) (c : κ) (cpu : Fin n) : Option (Smp n κ) :=
  match s.setting c with
  | none => none
  | some call =>
    let timer := s.timer call.timer
    match call.pc with
    | .scheduledTime =>
      some ((s.write call.timer { timer with scheduledTime := call.now + call.delay }).setAt c
        (some { call with pc := .periodicTime }))
    | .periodicTime =>
      some ((s.write call.timer { timer with periodicTime := call.period }).setAt c
        (some { call with pc := .callback }))
    | .callback =>
      some ((s.write call.timer { timer with callback := call.callback }).setAt c (some { call with pc := .arg }))
    | .arg => some ((s.write call.timer { timer with arg := call.arg }).setAt c (some { call with pc := .insert }))
    | .insert => some (setInsert s c cpu call)

/-- `timer_cancel` on `cpu` -/
def timerCancel (s : Smp n κ) (cpu : Fin n) (now : LkTime) (t : Nat) : Smp n κ :=
  let oldhead := (s.timerQueue cpu).head?
  let s := { s.write t { s.timer t with periodicTime := 0, callback := none, arg := 0 } with
    timerQueue := fun d => (s.timerQueue d).erase t
    cancelled := Function.update s.cancelled t true }
  match (s.timerQueue cpu).head? with
  | none => s.program cpu none
  | some newhead =>
    if some newhead ≠ oldhead then
      let delay := if lt (s.timer newhead).scheduledTime now then 0 else (s.timer newhead).scheduledTime - now
      s.program cpu (some delay)
    else s

end

/-- the critical section of `timer_tick`: the head is unlinked if it is due, or the tick is over -/
def tickPeek (s : Smp n κ) (cpu : Fin n) (now : LkTime) : Smp n κ :=
  match s.timerQueue cpu with
  | [] => s.tickAt cpu .out
  | t :: q =>
    if lt now (s.timer t).scheduledTime then
      (s.program cpu (some ((s.timer t).scheduledTime - now))).tickAt cpu .out
    else { s.tickAt cpu (.unlinked t now) with timerQueue := Function.update s.timerQueue cpu q }

/-- a periodic timer that was neither set nor cancelled by its callback is linked again -/
def requeue (s : Smp n κ) (cpu : Fin n) (t : Nat) (now : LkTime) (periodic : Bool) : Smp n κ :=
  if periodic ∧ ¬ s.Linked t ∧ 0 < (s.timer t).periodicTime then
    (s.write t { s.timer t with scheduledTime := now + (s.timer t).periodicTime }).insert cpu t
  else s

/-- the tick of a CPU goes on by one access -/
def tickNext (s : Smp n κ) (cpu : Fin n) : Option (Smp n κ) :=
  match s.tick cpu with
  | .out => none
  | .unlinked t now => some (s.tickAt cpu (.periodRead t now (decide (0 < (s.timer t).periodicTime))))
  | .periodRead t now periodic => some (s.tickAt cpu (.callbackRead t now periodic (s.timer t).callback))
  | .callbackRead t now periodic callback =>
    some (s.tickAt cpu (.argRead t now periodic callback (s.timer t).arg))
  | .argRead t now periodic callback arg =>
    some { s.tickAt cpu (.called t now periodic) with
      fired := ⟨t, callback, arg, (s.timer t).callback, s.cancelled t⟩ :: s.fired }
  | .called t now periodic => some (tickPeek (requeue s cpu t now periodic) cpu now)

/-! ## the system -/

inductive Op (n : Nat) (κ : Type) where
  | setOneshot (c : κ) (t : Nat) (now delay : LkTime) (callback : Option Nat) (arg : Nat)
  | setPeriodic (c : κ) (t : Nat) (now period : LkTime) (callback : Option Nat) (arg : Nat)
  | setNext (c : κ) (cpu : Fin n)
  | cancel (cpu : Fin n) (now : LkTime) (t : Nat)
  /-- the timer interrupt -/
  | tickEnter (cpu : Fin n) (now : LkTime)
  | tickNext (cpu : Fin n)

def smpStep [DecidableEq κ] (s : Smp n κ) : Op n κ → Option (Smp n κ)
  | .setOneshot c t now delay callback arg => timerSetOneshot s c t now delay callback arg
  | .setPeriodic c t now period callback arg => timerSetPeriodic s c t now period callback arg
  | .setNext c cpu => setNext s c cpu
  | .cancel cpu now t => some (timerCancel s cpu now t)
  | .tickEnter cpu now =>
    match s.tick cpu with
    | .out => some (tickPeek s cpu now)
    | _ => none
  | .tickNext cpu => tickNext s cpu

/-- `timer_init`, and every timer a `TIMER_INITIAL_VALUE` -/
def timersInit : Smp n κ where
  timer _ := ⟨0, 0, none, 0⟩
  timerQueue _ := []
  hw _ := none
  setting _ := none
  tick _ := .out
  cancelled _ := false
  fired := []

def smp (n : Nat) (κ : Type) [DecidableEq κ] : Machine (Smp n κ) (Op n κ) := .ofFun (· = timersInit) smpStep

/-- no callback is called that is NULL or replaced or cancelled, no timer is linked twice, and none that is cancelled -/
structure Safe (s : Smp n κ) : Prop where
  called : ∀ e ∈ s.fired, e.callback ≠ none ∧ e.callback = e.current
  live : ∀ e ∈ s.fired, e.cancelled = false
  nodup : ∀ c, (s.timerQueue c).Nodup
  unique : ∀ c d t, t ∈ s.timerQueue c → t ∈ s.timerQueue d → c = d
  stopped : ∀ t, s.cancelled t = true → ¬ s.Linked t

/-! ## calls that keep apart -/

/-- the timer that is unlinked and not called yet -/
def TickAt.held : TickAt → Option Nat
  | .unlinked t _ | .periodRead t _ _ | .callbackRead t _ _ _ | .argRead t _ _ _ _ => some t
  | .out | .called _ _ _ => none

/-- the timer and the callback that is going to be called for it -/
def TickAt.read : TickAt → Option (Nat × Option Nat)
  | .callbackRead t _ _ callback | .argRead t _ _ callback _ => some (t, callback)
  | .out | .unlinked _ _ | .periodRead _ _ _ | .called _ _ _ => none

/-- the timer that the tick is about to link again -/
def Smp.again (s : Smp n κ) (cpu : Fin n) : Option Nat :=
  match s.tick cpu with
  | .called t _ periodic => if periodic ∧ ¬ s.Linked t ∧ 0 < (s.timer t).periodicTime then some t else none
  | _ => none

/-- `timer_set` is given a callback, and no other `timer_set` is under way for the timer -/
def MaySet (s : Smp n κ) (t : Nat) (callback : Option Nat) : Prop :=
  callback ≠ none ∧ ∀ c, ∀ call ∈ s.setting c, call.timer ≠ t

/-- **No call cuts into a tick or another call that has the timer in hand**: a cancellation waits until the callback
is called and no `timer_set` has written one, a callback is not replaced by another after it was read, and a tick does
not link a timer again that is being set. -/
def Apart (s : Smp n κ) : Op n κ → Prop
  | .setOneshot _ t _ _ callback _ => MaySet s t callback
  | .setPeriodic _ t _ _ callback _ => MaySet s t callback
  | .setNext c _ => ∀ call ∈ s.setting c, call.pc = .callback →
      ∀ d, ∀ r ∈ (s.tick d).read, r.1 = call.timer → r.2 = call.callback
  | .cancel _ _ t => (∀ d, (s.tick d).held ≠ some t) ∧
      ∀ c, ∀ call ∈ s.setting c, call.timer = t → call.pc ≠ .arg ∧ call.pc ≠ .insert
  | .tickEnter _ _ => True
  | .tickNext cpu => ∀ c, ∀ call ∈ s.setting c, s.again cpu ≠ some call.timer

/-! ## the invariant -/

theorem held_of_read {pc : TickAt} {r : Nat × Option Nat} (h : r ∈ pc.read) : r.1 ∈ pc.held := by
  cases pc <;> cases h <;> rfl

/-- a timer that is linked or held has a callback and is not cancelled; the timers being set are not linked -/
structure SmpInv (s : Smp n κ) : Prop where
  safe : Safe s
  linked : ∀ t, s.Linked t → (s.timer t).callback ≠ none ∧ s.cancelled t = false
  held : ∀ d, ∀ t ∈ (s.tick d).held, (s.timer t).callback ≠ none ∧ s.cancelled t = false
  read : ∀ d, ∀ r ∈ (s.tick d).read, r.2 = (s.timer r.1).callback
  period : ∀ t, 0 < (s.timer t).periodicTime →
    ((s.timer t).callback ≠ none ∧ s.cancelled t = false) ∨ ∃ c, ∃ call ∈ s.setting c, call.timer = t
  setting : ∀ c, ∀ call ∈ s.setting c, ¬ s.Linked call.timer ∧ call.callback ≠ none ∧
    (call.pc = .arg ∨ call.pc = .insert → (s.timer call.timer).callback ≠ none)
  alone : ∀ c d, ∀ call ∈ s.setting c, ∀ call' ∈ s.setting d, call.timer = call'.timer → c = d

section
variable {s : Smp n κ}

theorem SmpInv.init : SmpInv (timersInit : Smp n κ) where
  safe :=
    { called := nofun
      live := nofun
      nodup := fun _ => List.nodup_nil
      unique := nofun
      stopped := nofun }
  linked := fun _ ⟨_, h⟩ => nomatch h
  held := nofun
  read := nofun
  period := fun _ h => absurd (show (0 : LkTime) < 0 from h) (BitVec.lt_irrefl _)
  setting := nofun
  alone := nofun

/-- a field of one thread or CPU is written -/
theorem mem_update {ι α : Type} [DecidableEq ι] {f : ι → Option α} {c d : ι} {o : Option α} {x : α}
    (h : x ∈ Function.update f c o d) : (d = c ∧ x ∈ o) ∨ (d ≠ c ∧ x ∈ f d) := by
  by_cases hd : d = c
  · subst hd
    rw [Function.update_self] at h
    exact .inl ⟨rfl, h⟩
  · rw [Function.update_of_ne hd] at h
    exact .inr ⟨hd, h⟩

theorem mem_update_of_ne {ι α : Type} [DecidableEq ι] {f : ι → Option α} {c d : ι} {o : Option α} {x : α}
    (hne : d ≠ c) (h : x ∈ f d) : x ∈ Function.update f c o d := by
  rw [Function.update_of_ne hne]
  exact h

theorem SmpInv.program (h : SmpInv s) (cpu : Fin n) (i : Option LkTime) : SmpInv (s.program cpu i) :=
  ⟨⟨h.safe.called, h.safe.live, h.safe.nodup, h.safe.unique, h.safe.stopped⟩, h.linked, h.held, h.read, h.period,
    h.setting, h.alone⟩

/-! ### linking and unlinking -/

theorem write_self (s : Smp n κ) (t : Nat) (x : Timer) : (s.write t x).timer t = x := Function.update_self _ _ _

theorem write_of_ne {t u : Nat} (h : u ≠ t) (x : Timer) : (s.write t x).timer u = s.timer u :=
  Function.update_of_ne h _ _

theorem insert_self (s : Smp n κ) (cpu : Fin n) (t : Nat) :
    (s.insert cpu t).timerQueue cpu = insertTimerInQueue s.timer t (s.timerQueue cpu) :=
  Function.update_self _ _ _

theorem insert_of_ne {cpu d : Fin n} (h : d ≠ cpu) (t : Nat) : (s.insert cpu t).timerQueue d = s.timerQueue d :=
  Function.update_of_ne h _ _

theorem linked_insert {cpu : Fin n} {t u : Nat} : (s.insert cpu t).Linked u ↔ u = t ∨ s.Linked u := by
  constructor
  · rintro ⟨d, hd⟩
    by_cases e : d = cpu
    · subst e
      rw [insert_self, mem_insertTimerInQueue] at hd
      exact hd.imp_right fun hu => ⟨d, hu⟩
    · rw [insert_of_ne e] at hd
      exact .inr ⟨d, hd⟩
  · rintro (rfl | ⟨d, hd⟩)
    · refine ⟨cpu, ?_⟩
      rw [insert_self, mem_insertTimerInQueue]
      exact .inl rfl
    · refine ⟨d, ?_⟩
      by_cases e : d = cpu
      · subst e
        rw [insert_self, mem_insertTimerInQueue]
        exact .inr hd
      · rw [insert_of_ne e]
        exact hd

/-- a timer that is not linked is linked into one queue -/
theorem nodup_insert (h : Safe s) {cpu : Fin n} {t : Nat} (ht : ¬ s.Linked t) (d : Fin n) :
    ((s.insert cpu t).timerQueue d).Nodup := by
  by_cases e : d = cpu
  · subst e
    rw [insert_self]
    exact (insertTimerInQueue_perm.nodup_iff).mpr (List.nodup_cons.mpr ⟨fun hm => ht ⟨d, hm⟩, h.nodup d⟩)
  · rw [insert_of_ne e]
    exact h.nodup d

theorem mem_insert {cpu d : Fin n} {t u : Nat} (h : u ∈ (s.insert cpu t).timerQueue d) :
    (d = cpu ∧ u = t) ∨ u ∈ s.timerQueue d := by
  by_cases e : d = cpu
  · subst e
    rw [insert_self, mem_insertTimerInQueue] at h
    exact h.imp_left fun hu => ⟨rfl, hu⟩
  · rw [insert_of_ne e] at h
    exact .inr h

theorem unique_insert (h : Safe s) {cpu : Fin n} {t : Nat} (ht : ¬ s.Linked t) (d e : Fin n) (u : Nat)
    (hd : u ∈ (s.insert cpu t).timerQueue d) (he : u ∈ (s.insert cpu t).timerQueue e) : d = e := by
  obtain ⟨rfl, rfl⟩ | hd' := mem_insert hd <;> obtain ⟨rfl, hu⟩ | he' := mem_insert he
  · rfl
  · exact absurd ⟨e, he'⟩ ht
  · exact absurd ⟨d, hu ▸ hd'⟩ ht
  · exact h.unique d e u hd' he'

/-- a timer that has a callback, and is neither linked nor cancelled nor being set, is linked -/
theorem SmpInv.insert (h : SmpInv s) {t : Nat} (hfree : ¬ s.Linked t)
    (hlive : (s.timer t).callback ≠ none ∧ s.cancelled t = false) (hset : ∀ c, ∀ call ∈ s.setting c, call.timer ≠ t)
    (cpu : Fin n) : SmpInv (s.insert cpu t) := by
  have hlinked : ∀ u, (s.insert cpu t).Linked u → (s.timer u).callback ≠ none ∧ s.cancelled u = false := by
    intro u hu
    obtain rfl | hu := linked_insert.mp hu
    · exact hlive
    · exact h.linked u hu
  refine ⟨⟨h.safe.called, h.safe.live, nodup_insert h.safe hfree, unique_insert h.safe hfree, ?_⟩, hlinked, h.held,
    h.read, h.period, ?_, h.alone⟩
  · intro u hu hl
    cases (hlinked u hl).2.symm.trans hu
  · intro c call hc
    obtain ⟨h₁, h₂⟩ := h.setting c call hc
    exact ⟨fun hl => (linked_insert.mp hl).elim (hset c call hc) h₁, h₂⟩

/-- the time of a timer is written -/
theorem SmpInv.reschedule (h : SmpInv s) (t : Nat) (x : LkTime) :
    SmpInv (s.write t { s.timer t with scheduledTime := x }) := by
  have hsame : ∀ u, ((s.write t { s.timer t with scheduledTime := x }).timer u).callback = (s.timer u).callback ∧
      ((s.write t { s.timer t with scheduledTime := x }).timer u).periodicTime = (s.timer u).periodicTime := by
    intro u
    by_cases e : u = t
    · subst e
      rw [write_self]
      exact ⟨rfl, rfl⟩
    · rw [write_of_ne e]
      exact ⟨rfl, rfl⟩
  refine ⟨⟨h.safe.called, h.safe.live, h.safe.nodup, h.safe.unique, h.safe.stopped⟩, ?_, ?_, ?_, ?_, ?_, h.alone⟩
  · intro u hu
    rw [(hsame u).1]
    exact h.linked u hu
  · intro d u hu
    rw [(hsame u).1]
    exact h.held d u hu
  · intro d r hr
    rw [(hsame r.1).1]
    exact h.read d r hr
  · intro u hu
    rw [(hsame u).2] at hu
    rw [(hsame u).1]
    exact h.period u hu
  · intro c call hc
    rw [(hsame call.timer).1]
    exact h.setting c call hc

end

section
variable [DecidableEq κ] {s s' : Smp n κ}

/-! ### setting a timer -/

theorem SmpInv.timerSet (h : SmpInv s) {c : κ} (call : SetCall) (hg : MaySet s call.timer call.callback)
    (hpc : call.pc = .scheduledTime) (he : timerSet s c call = some s') : SmpInv s' := by
  unfold TimerSmp.timerSet at he
  split at he
  · cases he
  · rename_i hfree
    cases he
    have hc : s.setting c = none := Option.not_isSome_iff_eq_none.mp fun hs => hfree (.inl hs)
    refine ⟨⟨h.safe.called, h.safe.live, h.safe.nodup, h.safe.unique, h.safe.stopped⟩, h.linked, h.held, h.read,
      ?_, ?_, ?_⟩
    · intro t ht
      refine (h.period t ht).imp_right fun ⟨d, call', hd, hcall⟩ => ⟨d, call', mem_update_of_ne ?_ hd, hcall⟩
      rintro rfl
      rw [hc] at hd
      cases hd
    · intro d call' hd
      obtain ⟨-, hcall⟩ | ⟨-, hd⟩ := mem_update hd
      · cases hcall
        exact ⟨fun hl => hfree (.inr hl), hg.1, fun hp => by rw [hpc] at hp; simp at hp⟩
      · exact h.setting d call' hd
    · intro d e call₁ h₁ call₂ h₂ heq
      obtain ⟨rfl, hcall₁⟩ | ⟨-, h₁'⟩ := mem_update h₁ <;> obtain ⟨rfl, hcall₂⟩ | ⟨-, h₂'⟩ := mem_update h₂
      · rfl
      · cases hcall₁
        exact absurd heq.symm (hg.2 e call₂ h₂')
      · cases hcall₂
        exact absurd heq (hg.2 d call₁ h₁')
      · exact h.alone d e call₁ h₁' call₂ h₂' heq

/-- a write of `timer_set` -/
theorem SmpInv.write (h : SmpInv s) {c : κ} {call : SetCall} (hc : call ∈ s.setting c) {x : Timer} {pc : SetAt}
    (hx : (s.timer call.timer).callback ≠ none → x.callback ≠ none)
    (hr : ∀ d, ∀ r ∈ (s.tick d).read, r.1 = call.timer → r.2 = x.callback)
    (hpc : pc = .arg ∨ pc = .insert → x.callback ≠ none) :
    SmpInv ((s.write call.timer x).setAt c (some { call with pc := pc })) := by
  have hother : ∀ t, t ≠ call.timer → Function.update s.timer call.timer x t = s.timer t :=
    fun t ht => Function.update_of_ne ht _ _
  have hcb : ∀ t, (s.timer t).callback ≠ none → (Function.update s.timer call.timer x t).callback ≠ none := by
    intro t ht
    by_cases e : t = call.timer
    · rw [e, Function.update_self]
      exact hx (e ▸ ht)
    · rw [hother t e]
      exact ht
  have hin : { call with pc := pc } ∈ ((s.write call.timer x).setAt c (some { call with pc := pc })).setting c :=
    Function.update_self c _ _
  refine ⟨⟨h.safe.called, h.safe.live, h.safe.nodup, h.safe.unique, h.safe.stopped⟩,
    fun t ht => (h.linked t ht).imp_left (hcb t), fun d t ht => (h.held d t ht).imp_left (hcb t), ?_, ?_, ?_, ?_⟩
  · intro d r hread
    show r.2 = (Function.update s.timer call.timer x r.1).callback
    by_cases e : r.1 = call.timer
    · rw [e, Function.update_self]
      exact hr d r hread e
    · rw [hother _ e]
      exact h.read d r hread
  · intro t ht
    by_cases e : t = call.timer
    · exact .inr ⟨c, _, hin, e.symm⟩
    · have ht : 0 < (s.timer t).periodicTime := by
        rw [← hother t e]
        exact ht
      refine (h.period t ht).imp (.imp_left (hcb t)) ?_
      rintro ⟨d, call', hd, rfl⟩
      have hne : d ≠ c := by
        rintro rfl
        cases Option.mem_unique hd hc
        exact e rfl
      exact ⟨d, call', mem_update_of_ne hne hd, rfl⟩
  · intro d call' hd
    obtain ⟨rfl, hcall⟩ | ⟨hne, hd⟩ := mem_update hd
    · cases hcall
      obtain ⟨h₁, h₂, -⟩ := h.setting _ call hc
      refine ⟨h₁, h₂, fun hp => ?_⟩
      show (Function.update s.timer call.timer x call.timer).callback ≠ none
      rw [Function.update_self]
      exact hpc hp
    · obtain ⟨h₁, h₂, h₃⟩ := h.setting d call' hd
      exact ⟨h₁, h₂, fun hp => hcb _ (h₃ hp)⟩
  · intro d e call₁ h₁ call₂ h₂ heq
    obtain ⟨rfl, hcall₁⟩ | ⟨-, h₁'⟩ := mem_update h₁ <;> obtain ⟨rfl, hcall₂⟩ | ⟨-, h₂'⟩ := mem_update h₂
    · rfl
    · cases hcall₁
      exact h.alone _ e call hc call₂ h₂' heq
    · cases hcall₂
      exact h.alone d _ call₁ h₁' call hc heq
    · exact h.alone d e call₁ h₁' call₂ h₂' heq

/-- a `timer_set` that has written a callback is over -/
theorem SmpInv.setDone (h : SmpInv s) {c : κ} {call : SetCall} (hc : call ∈ s.setting c)
    (hcb : (s.timer call.timer).callback ≠ none) :
    SmpInv { s.setAt c none with cancelled := Function.update s.cancelled call.timer false } := by
  have hlive : ∀ t, (s.timer t).callback ≠ none ∧ s.cancelled t = false →
      (s.timer t).callback ≠ none ∧ Function.update s.cancelled call.timer false t = false := by
    intro t ht
    refine ⟨ht.1, ?_⟩
    by_cases e : t = call.timer
    · rw [e, Function.update_self]
    · rw [Function.update_of_ne e]
      exact ht.2
  refine ⟨⟨h.safe.called, h.safe.live, h.safe.nodup, h.safe.unique, ?_⟩, fun t ht => hlive t (h.linked t ht),
    fun d t ht => hlive t (h.held d t ht), h.read, ?_, ?_, ?_⟩
  · intro t ht hl
    cases (hlive t (h.linked t hl)).2.symm.trans ht
  · intro t ht
    by_cases e : t = call.timer
    · rw [e]
      exact .inl ⟨hcb, Function.update_self _ _ _⟩
    · refine (h.period t ht).imp (hlive t) ?_
      rintro ⟨d, call', hd, rfl⟩
      refine ⟨d, call', mem_update_of_ne ?_ hd, rfl⟩
      rintro rfl
      cases Option.mem_unique hd hc
      exact e rfl
  · intro d call' hd
    obtain ⟨-, hn⟩ | ⟨-, hd⟩ := mem_update hd
    · cases hn
    · exact h.setting d call' hd
  · intro d e call₁ h₁ call₂ h₂ heq
    obtain ⟨-, hn⟩ | ⟨-, h₁'⟩ := mem_update h₁
    · cases hn
    · obtain ⟨-, hn⟩ | ⟨-, h₂'⟩ := mem_update h₂
      · cases hn
      · exact h.alone d e call₁ h₁' call₂ h₂' heq

/-- the critical section of `timer_set` -/
theorem SmpInv.setInsert (h : SmpInv s) {c : κ} {call : SetCall} (hc : call ∈ s.setting c) (hpc : call.pc = .insert)
    (cpu : Fin n) : SmpInv (setInsert s c cpu call) := by
  obtain ⟨hfree, -, hcb⟩ := h.setting c call hc
  have hcb := hcb (.inr hpc)
  have hset : ∀ d, ∀ call' ∈ (s.setAt c none).setting d, call'.timer ≠ call.timer := by
    intro d call' hd e
    obtain ⟨-, hn⟩ | ⟨hne, hd⟩ := mem_update hd
    · cases hn
    · exact hne (h.alone d c call' hd call hc e)
  have key := (h.setDone hc hcb).insert hfree ⟨hcb, Function.update_self _ _ _⟩ hset cpu
  unfold TimerSmp.setInsert
  dsimp only
  split
  · exact key.program cpu (some call.delay)
  · exact key

/-- one access of `timer_set` -/
theorem SmpInv.setNext (h : SmpInv s) {c : κ} {cpu : Fin n} (hg : Apart s (.setNext c cpu))
    (he : setNext s c cpu = some s') : SmpInv s' := by
  unfold TimerSmp.setNext at he
  split at he
  · cases he
  · rename_i call hc
    have hread : ∀ d, ∀ r ∈ (s.tick d).read, r.1 = call.timer → r.2 = (s.timer call.timer).callback :=
      fun d r hr e => e ▸ h.read d r hr
    obtain ⟨-, hcb, hwritten⟩ := h.setting c call hc
    dsimp only at he
    split at he
    · cases he
      exact h.write hc id hread (by simp)
    · cases he
      exact h.write hc id hread (by simp)
    · rename_i hpc
      cases he
      exact h.write hc (fun _ => hcb) (fun d => hg call hc hpc d) fun _ => hcb
    · rename_i hpc
      cases he
      exact h.write hc id hread fun _ => hwritten (.inl hpc)
    · rename_i hpc
      cases he
      exact h.setInsert hc hpc cpu

end

section
variable {s s' : Smp n κ}

/-! ### cancelling -/

theorem SmpInv.timerCancel (h : SmpInv s) {cpu : Fin n} {now : LkTime} {t : Nat} (hg : Apart s (.cancel cpu now t)) :
    SmpInv (timerCancel s cpu now t) := by
  obtain ⟨hheld, hsetting⟩ := hg
  have key : SmpInv { s.write t { s.timer t with periodicTime := 0, callback := none, arg := 0 } with
      timerQueue := fun d => (s.timerQueue d).erase t
      cancelled := Function.update s.cancelled t true } := by
    have hother : ∀ u, u ≠ t → Function.update s.timer t { s.timer t with
        periodicTime := 0, callback := none, arg := 0 } u = s.timer u :=
      fun u hu => Function.update_of_ne hu _ _
    have hlive : ∀ u, u ≠ t → (s.timer u).callback ≠ none ∧ s.cancelled u = false →
        (Function.update s.timer t { s.timer t with periodicTime := 0, callback := none, arg := 0 } u).callback ≠ none ∧
          Function.update s.cancelled t true u = false := by
      intro u hu hlive
      rw [hother u hu, Function.update_of_ne hu]
      exact hlive
    have herase : ∀ d u, u ∈ (s.timerQueue d).erase t → u ≠ t ∧ u ∈ s.timerQueue d :=
      fun d u hu => (h.safe.nodup d).mem_erase_iff.mp hu
    refine ⟨⟨h.safe.called, h.safe.live, fun d => (h.safe.nodup d).erase t,
      fun c d u hc hd => h.safe.unique c d u (herase c u hc).2 (herase d u hd).2, ?_⟩, ?_, ?_, ?_, ?_, ?_, h.alone⟩
    · rintro u hu ⟨d, hd⟩
      obtain ⟨hne, hd⟩ := herase d u hd
      cases (hlive u hne (h.linked u ⟨d, hd⟩)).2.symm.trans hu
    · rintro u ⟨d, hd⟩
      obtain ⟨hne, hd⟩ := herase d u hd
      exact hlive u hne (h.linked u ⟨d, hd⟩)
    · intro d u hu
      refine hlive u ?_ (h.held d u hu)
      rintro rfl
      exact hheld d hu
    · intro d r hr
      have hne : r.1 ≠ t := by
        intro e
        refine hheld d ?_
        rw [← e]
        exact held_of_read hr
      show r.2 = (Function.update s.timer t _ r.1).callback
      rw [hother _ hne]
      exact h.read d r hr
    · intro u hu
      by_cases e : u = t
      · subst e
        have hzero : 0 < (Function.update s.timer u { s.timer u with
            periodicTime := 0, callback := none, arg := 0 } u).periodicTime := hu
        rw [Function.update_self] at hzero
        exact absurd hzero (BitVec.lt_irrefl _)
      · have hu : 0 < (s.timer u).periodicTime := by
          rw [← hother u e]
          exact hu
        exact (h.period u hu).imp_left (hlive u e)
    · intro c call hc
      obtain ⟨h₁, h₂, h₃⟩ := h.setting c call hc
      refine ⟨fun ⟨d, hd⟩ => h₁ ⟨d, (herase d _ hd).2⟩, h₂, fun hp => ?_⟩
      have hne : call.timer ≠ t := by
        intro e
        obtain ⟨harg, hinsert⟩ := hsetting c call hc e
        exact hp.elim harg hinsert
      show (Function.update s.timer t _ call.timer).callback ≠ none
      rw [hother _ hne]
      exact h₃ hp
  unfold TimerSmp.timerCancel
  dsimp only
  split
  · exact key.program cpu none
  · split
    · exact key.program cpu _
    · exact key

/-! ### the tick -/

theorem SmpInv.tickAt (h : SmpInv s) {cpu : Fin n} {pc : TickAt}
    (hheld : ∀ t ∈ pc.held, (s.timer t).callback ≠ none ∧ s.cancelled t = false)
    (hread : ∀ r ∈ pc.read, r.2 = (s.timer r.1).callback) : SmpInv (s.tickAt cpu pc) := by
  refine ⟨⟨h.safe.called, h.safe.live, h.safe.nodup, h.safe.unique, h.safe.stopped⟩, h.linked, ?_, ?_, h.period,
    h.setting, h.alone⟩
  · intro d t ht
    by_cases e : d = cpu
    · subst e
      rw [Smp.tickAt_self] at ht
      exact hheld t ht
    · rw [Smp.tickAt_of_ne e] at ht
      exact h.held d t ht
  · intro d r hr
    by_cases e : d = cpu
    · subst e
      rw [Smp.tickAt_self] at hr
      exact hread r hr
    · rw [Smp.tickAt_of_ne e] at hr
      exact h.read d r hr

/-- the head of a queue is unlinked -/
theorem SmpInv.unlink (h : SmpInv s) {cpu : Fin n} {t : Nat} {q : List Nat} (hq : s.timerQueue cpu = t :: q) :
    SmpInv { s with timerQueue := Function.update s.timerQueue cpu q } := by
  have hmem : ∀ d u, u ∈ Function.update s.timerQueue cpu q d → u ∈ s.timerQueue d := by
    intro d u hu
    by_cases e : d = cpu
    · subst e
      rw [Function.update_self] at hu
      rw [hq]
      exact .tail _ hu
    · rw [Function.update_of_ne e] at hu
      exact hu
  refine ⟨⟨h.safe.called, h.safe.live, ?_, fun c d u hc hd => h.safe.unique c d u (hmem c u hc) (hmem d u hd),
    fun u hu ⟨d, hd⟩ => h.safe.stopped u hu ⟨d, hmem d u hd⟩⟩, fun u ⟨d, hd⟩ => h.linked u ⟨d, hmem d u hd⟩, h.held,
    h.read, h.period, ?_, h.alone⟩
  · intro d
    show (Function.update s.timerQueue cpu q d).Nodup
    by_cases e : d = cpu
    · subst e
      rw [Function.update_self]
      exact (List.nodup_cons.mp (hq ▸ h.safe.nodup d)).2
    · rw [Function.update_of_ne e]
      exact h.safe.nodup d
  · intro c call hc
    obtain ⟨h₁, h₂⟩ := h.setting c call hc
    exact ⟨fun ⟨d, hd⟩ => h₁ ⟨d, hmem d _ hd⟩, h₂⟩

theorem SmpInv.tickPeek (h : SmpInv s) (cpu : Fin n) (now : LkTime) : SmpInv (tickPeek s cpu now) := by
  unfold TimerSmp.tickPeek
  split
  · exact h.tickAt (fun u hu => by cases hu) fun r hr => by cases hr
  · rename_i t q hq
    split
    · exact (h.program cpu _).tickAt (fun u hu => by cases hu) fun r hr => by cases hr
    · have hlive := h.linked t ⟨cpu, hq ▸ List.mem_cons_self⟩
      refine (h.unlink hq).tickAt ?_ fun r hr => by cases hr
      intro u hu
      cases hu
      exact hlive

/-- a timer that is linked again is not being set -/
theorem SmpInv.requeue (h : SmpInv s) {cpu : Fin n} {t : Nat} {now : LkTime} {periodic : Bool}
    (hpc : s.tick cpu = .called t now periodic) (hg : Apart s (.tickNext cpu)) :
    SmpInv (requeue s cpu t now periodic) := by
  unfold TimerSmp.requeue
  split
  · rename_i hagain
    obtain ⟨hp, hfree, hperiod⟩ := hagain
    have hset : ∀ c, ∀ call ∈ s.setting c, call.timer ≠ t := by
      intro c call hc e
      refine hg c call hc ?_
      unfold Smp.again
      rw [hpc]
      dsimp only
      rw [if_pos ⟨hp, hfree, hperiod⟩, e]
    have hlive := (h.period t hperiod).resolve_right fun ⟨c, call, hc, e⟩ => hset c call hc e
    have h' := h.reschedule t (now + (s.timer t).periodicTime)
    refine h'.insert hfree ⟨?_, hlive.2⟩ hset cpu
    rw [write_self]
    exact hlive.1
  · exact h

/-- one access of the tick -/
theorem SmpInv.tickNext (h : SmpInv s) {cpu : Fin n} (hg : Apart s (.tickNext cpu)) (he : tickNext s cpu = some s') :
    SmpInv s' := by
  have hheld := h.held cpu
  have hread := h.read cpu
  unfold TimerSmp.tickNext at he
  split at he
  · cases he
  · rename_i t now hpc
    cases he
    rw [hpc] at hheld
    exact h.tickAt hheld nofun
  · rename_i t now periodic hpc
    cases he
    rw [hpc] at hheld
    refine h.tickAt hheld ?_
    rintro r ⟨⟩
    rfl
  · rename_i t now periodic callback hpc
    cases he
    rw [hpc] at hheld hread
    exact h.tickAt hheld hread
  · rename_i t now periodic callback arg hpc
    cases he
    rw [hpc] at hheld hread
    obtain ⟨hcb, hlive⟩ := hheld t rfl
    have hcurrent : callback = (s.timer t).callback := hread (t, callback) rfl
    have h' : SmpInv (s.tickAt cpu (.called t now periodic)) := h.tickAt nofun nofun
    refine ⟨⟨?_, ?_, h.safe.nodup, h.safe.unique, h.safe.stopped⟩, h'.linked, h'.held, h'.read, h'.period, h'.setting,
      h'.alone⟩
    · intro e hm
      obtain rfl | hm := List.mem_cons.mp hm
      · exact ⟨hcurrent ▸ hcb, hcurrent⟩
      · exact h.safe.called e hm
    · intro e hm
      obtain rfl | hm := List.mem_cons.mp hm
      · exact hlive
      · exact h.safe.live e hm
  · rename_i t now periodic hpc
    cases he
    exact (h.requeue hpc hg).tickPeek cpu now

end

/-! ## the main result -/

section
variable [DecidableEq κ] {s s' : Smp n κ}

theorem SmpInv.step (h : SmpInv s) {op : Op n κ} (hg : Apart s op) (he : smpStep s op = some s') : SmpInv s' := by
  cases op with
  | setOneshot c t now delay callback arg =>
    exact h.timerSet ⟨t, now, if delay = 0 then 1 else delay, 0, callback, arg, .scheduledTime⟩ hg rfl he
  | setPeriodic c t now period callback arg =>
    exact h.timerSet ⟨t, now, if period = 0 then 1 else period, if period = 0 then 1 else period, callback, arg,
      .scheduledTime⟩ hg rfl he
  | setNext c cpu => exact h.setNext hg he
  | cancel cpu now t =>
    cases he
    exact h.timerCancel hg
  | tickEnter cpu now =>
    unfold smpStep at he
    dsimp only at he
    split at he
    · cases he
      exact h.tickPeek cpu now
    · cases he
  | tickNext cpu => exact h.tickNext hg he

/-- **Every run whose calls keep apart is safe**, on any number of CPUs. -/
theorem timers_safe (h : (smp n κ).Run Apart s) : Safe s := by
  refine (h.invariant (I := SmpInv) ?_ fun s op s' hi hg he => hi.step hg he).safe
  rintro _ rfl
  exact .init

end

/-! ## runs -/

/-- `timer_set_periodic` of timer 0 on CPU 0, and the tick of CPU 0 unlinks it -/
def tickOps : List (Op 2 Bool) :=
  .setPeriodic false 0 0 10 (some 7) 1 :: List.replicate 5 (.setNext false 0) ++ [.tickEnter 0 10]

instance (s : Smp n Bool) (op : Op n Bool) : Decidable (Apart s op) :=
  match op with
  | .setOneshot _ t _ _ callback _ | .setPeriodic _ t _ _ callback _ =>
    inferInstanceAs (Decidable (callback ≠ none ∧ ∀ c, ∀ call ∈ s.setting c, call.timer ≠ t))
  | .setNext c _ => inferInstanceAs (Decidable (∀ call ∈ s.setting c, call.pc = .callback →
      ∀ d, ∀ r ∈ (s.tick d).read, r.1 = call.timer → r.2 = call.callback))
  | .cancel _ _ t => inferInstanceAs (Decidable ((∀ d, (s.tick d).held ≠ some t) ∧
      ∀ c, ∀ call ∈ s.setting c, call.timer = t → call.pc ≠ .arg ∧ call.pc ≠ .insert))
  | .tickEnter _ _ => .isTrue trivial
  | .tickNext cpu => inferInstanceAs (Decidable (∀ c, ∀ call ∈ s.setting c, s.again cpu ≠ some call.timer))

/-- CPU 1 cancels the timer while its callback runs -/
theorem timers_safe_cancelled : ∃ s, Machine.execIf Apart smpStep timersInit
    (tickOps ++ List.replicate 4 (.tickNext 0) ++ [.cancel 1 12 0, .tickNext 0]) = some s ∧
      s.fired = [⟨0, some 7, 1, some 7, false⟩] ∧ s.timerQueue 0 = [] ∧ Safe s := by
  obtain ⟨s, hs, hv⟩ := (Option.any_eq_true _ _).mp
    (show (Machine.execIf Apart smpStep timersInit
      (tickOps ++ List.replicate 4 (.tickNext 0) ++ [.cancel 1 12 0, .tickNext 0])).any
        (fun s => s.fired = [⟨0, some 7, 1, some 7, false⟩] ∧ s.timerQueue 0 = []) by decide)
  obtain ⟨hfired, hqueue⟩ := of_decide_eq_true hv
  have hinit : (smp 2 Bool).Run Apart timersInit := .init rfl
  exact ⟨s, hs, hfired, hqueue, timers_safe (hinit.execIf _ hs)⟩

/-- **CPU 1 cancels the timer that is unlinked**, and the tick calls NULL. -/
theorem timers_safe_fails : ¬ ∀ (n : Nat) (κ : Type) (_ : DecidableEq κ) (s : Smp n κ), (smp n κ).Reach s → Safe s := by
  intro h
  obtain ⟨s, hs, hv⟩ := (Option.any_eq_true _ _).mp
    (show (Machine.exec smpStep timersInit
      (tickOps ++ [.cancel 1 12 0] ++ List.replicate 4 (.tickNext 0))).any
        (fun s => s.fired = [⟨0, none, 0, none, true⟩]) by decide)
  have hinit : (smp 2 Bool).Reach timersInit := .init rfl
  have hrun := hinit.exec _ hs
  have hfired : s.fired = _ := of_decide_eq_true hv
  have hcalled := (h 2 Bool _ s hrun).called ⟨0, none, 0, none, true⟩ (hfired ▸ List.mem_cons_self)
  exact hcalled.1 rfl

end LkHv.TimerSmp
