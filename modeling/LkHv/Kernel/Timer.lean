import LkHv.Lib.Machine
import LkHv.Lib.Serial

/-!
# The timer queue (`kernel/timer.c`)

One CPU, with a dynamic hardware timer.  The clock of the model does not wrap; the code reads it modulo 2^32.

* `timerSet`, `timerCancel`, `tickLoop`, `timerTick`   the source's; a callback is a list of calls and what it
                        returns;
* `inWindow`            the pending deadlines and the clock, any two of them less than half the range apart;
* `Good`, `Armed`       the queue and the history of callbacks; the hardware timer;
* `timer_queue`         every run that stays in such a window is good, and the timer is armed after each operation;
* `timer_queue_fails`   half the range around the clock is not enough, and an overdue head is armed for now.
-/

namespace LkHv.TimerQueue
open Serial

/-- `lk_time_t` -/
abbrev LkTime := BitVec 32

/-! ## the queue -/

structure Timer where
  scheduledTime : LkTime
  periodicTime : LkTime
  callback : Option Nat
  arg : Nat

/-- what happened to the timers -/
inductive Ev where
  /-- `timer_set_oneshot` or `timer_set_periodic` -/
  | set (t : Nat) (periodic : Bool)
  | cancel (t : Nat)
  /-- the callback is called, at `now`, for a timer that was scheduled for `deadline` -/
  | fire (t deadline now : Nat)
  deriving DecidableEq

structure TimerState where
  /-- the clock, before it is cut to 32 bits -/
  clock : Nat
  timer : Nat → Timer
  timerQueue : List Nat
  /-- when the hardware timer is to fire -/
  hw : Option Nat
  /-- monitor: `scheduled_time`, before it is cut to 32 bits -/
  deadline : Nat → Nat
  /-- monitor: what happened, the last first -/
  log : List Ev
  /-- monitor: clock and deadlines were always in range -/
  inRange : Bool

/-- a call of a callback's -/
inductive Act where
  | setOneshot (t : Nat) (delay : LkTime) (callback : Option Nat) (arg : Nat)
  | setPeriodic (t : Nat) (period : LkTime) (callback : Option Nat) (arg : Nat)
  | cancel (t : Nat)

/-- what a callback does, and whether it returns `INT_RESCHEDULE` -/
structure Call where
  acts : List Act
  resched : Bool

/-- `insert_timer_in_queue` -/
@[local grind =] def insertTimerInQueue (timer : Nat → Timer) (t : Nat) : List Nat → List Nat
  | [] => [t]
  | entry :: q =>
    if gt (timer entry).scheduledTime (timer t).scheduledTime then t :: entry :: q
    else entry :: insertTimerInQueue timer t q

namespace TimerState

/-- `current_time()` -/
def currentTime (s : TimerState) : LkTime := BitVec.ofNat 32 s.clock

/-- the clock, and the deadlines of the queue -/
def times (s : TimerState) : List Nat := s.clock :: s.timerQueue.map s.deadline

/-- clock and deadlines are looked at -/
def seen (R : Nat → List Nat → Bool) (s : TimerState) : TimerState :=
  { s with inRange := s.inRange && R s.clock (s.timerQueue.map s.deadline) }

theorem seen_inRange {R : Nat → List Nat → Bool} {s : TimerState} :
    (s.seen R).inRange ↔ s.inRange ∧ R s.clock (s.timerQueue.map s.deadline) :=
  Bool.and_eq_true_iff

end TimerState

def platformSetOneshotTimer (s : TimerState) (interval : LkTime) : TimerState := { s with hw := some (s.clock + interval.toNat) }

def platformStopTimer (s : TimerState) : TimerState := { s with hw := none }

section
variable (R : Nat → List Nat → Bool)

/-- `t` is scheduled `delay` from now and linked -/
def schedule (s : TimerState) (t : Nat) (delay : LkTime) : TimerState :=
  let timer := Function.update s.timer t { s.timer t with scheduledTime := s.currentTime + delay }
  TimerState.seen R { s with
    timer := timer
    timerQueue := insertTimerInQueue timer t s.timerQueue
    deadline := Function.update s.deadline t (s.clock + delay.toNat) }

/-- `timer_set`; it panics if the timer is linked -/
def timerSet (s : TimerState) (t : Nat) (delay period : LkTime) (callback : Option Nat) (arg : Nat) : Option TimerState :=
  if t ∈ s.timerQueue then none
  else
    let timer := { s.timer t with periodicTime := period, callback := callback, arg := arg }
    let s := schedule R { s with timer := Function.update s.timer t timer, log := .set t (period ≠ 0) :: s.log } t delay
    some (if s.timerQueue.head? = some t then platformSetOneshotTimer s delay else s)

def timerSetOneshot (s : TimerState) (t : Nat) (delay : LkTime) (callback : Option Nat) (arg : Nat) : Option TimerState :=
  timerSet R s t (if delay = 0 then 1 else delay) 0 callback arg

def timerSetPeriodic (s : TimerState) (t : Nat) (period : LkTime) (callback : Option Nat) (arg : Nat) : Option TimerState :=
  let period := if period = 0 then 1 else period
  timerSet R s t period period callback arg

end

/-- `timer_cancel` -/
def timerCancel (s : TimerState) (t : Nat) : TimerState :=
  let oldhead := s.timerQueue.head?
  let s := { s with
    timerQueue := s.timerQueue.erase t
    timer := Function.update s.timer t { s.timer t with periodicTime := 0, callback := none, arg := 0 }
    log := .cancel t :: s.log }
  match s.timerQueue.head? with
  | none => platformStopTimer s
  | some newhead =>
    if some newhead ≠ oldhead then
      let now := s.currentTime
      let delay := if lt (s.timer newhead).scheduledTime now then 0 else (s.timer newhead).scheduledTime - now
      platformSetOneshotTimer s delay
    else s

section
variable (R : Nat → List Nat → Bool)

def act (s : TimerState) : Act → Option TimerState
  | .setOneshot t delay callback arg => timerSetOneshot R s t delay callback arg
  | .setPeriodic t period callback arg => timerSetPeriodic R s t period callback arg
  | .cancel t => some (timerCancel s t)

def runActs : List Act → TimerState → Option TimerState
  | [], s => some s
  | a :: as, s => (act R s a).bind (runActs as)

/-- the loop of `timer_tick`, for at most so many timers; `call` is what the callbacks do: the timer, its callback
and `arg`, and how many rounds are left -/
def tickLoop (call : Nat → Nat → Nat → Nat → Call) : Nat → TimerState → Bool → Option (TimerState × Bool)
  | 0, s, ret => some (s, ret)
  | n + 1, s, ret =>
    match s.timerQueue with
    | [] => some (s, ret)
    | t :: q =>
      let timer := s.timer t
      let now := s.currentTime
      if lt now timer.scheduledTime then some (s, ret)
      else
        let periodic := timer.periodicTime ≠ 0
        match timer.callback with
        | none => none
        | some callback =>
          let c := call t callback timer.arg n
          (runActs R c.acts { s with timerQueue := q, log := .fire t (s.deadline t) s.clock :: s.log }).bind fun s =>
            let s := if periodic ∧ t ∉ s.timerQueue ∧ (s.timer t).periodicTime ≠ 0
              then schedule R s t (s.timer t).periodicTime else s
            tickLoop call n s (ret || c.resched)

/-- `timer_tick`, as `platform_tick` calls it; the result is whether it returns `INT_RESCHEDULE` -/
def timerTick (s : TimerState) (call : Nat → Nat → Nat → Nat → Call) : Option (TimerState × Bool) :=
  (tickLoop R call s.timerQueue.length (platformStopTimer s) false).map fun r =>
    match r.1.timerQueue.head? with
    | none => r
    | some t => (platformSetOneshotTimer r.1 ((r.1.timer t).scheduledTime - r.1.currentTime), r.2)

/-! ## the machine -/

/-- an operation, at a time -/
inductive Op where
  | act (now : Nat) (a : Act)
  | tick (now : Nat) (call : Nat → Nat → Nat → Nat → Call)

def Op.now : Op → Nat
  | .act now _ => now
  | .tick now _ => now

/-- the clock has gone on -/
def TimerState.at (s : TimerState) (now : Nat) : TimerState := TimerState.seen R { s with clock := now }

def step (s : TimerState) (op : Op) : Option TimerState :=
  if op.now < s.clock then none
  else
    match op with
    | .act now a => TimerQueue.act R (s.at R now) a
    | .tick now call => (timerTick R (s.at R now) call).map Prod.fst

end

/-- after `timer_init` and `timer_initialize` -/
structure Boot (s : TimerState) : Prop where
  timerQueue : s.timerQueue = []
  periodicTime : ∀ t, (s.timer t).periodicTime = 0
  log : s.log = []
  inRange : s.inRange

def timers (R : Nat → List Nat → Bool) : Machine TimerState Op := .ofFun Boot (step R)

/-! ## what is to hold -/

/-- clock and deadlines, any two of them less than half the range apart -/
def inWindow (now : Nat) (deadlines : List Nat) : Bool := decide (Window 32 (now :: deadlines))

/-- each deadline is less than half the range from the clock -/
def near (now : Nat) (deadlines : List Nat) : Bool :=
  deadlines.all fun d => decide (d < now + 2 ^ 31 ∧ now < d + 2 ^ 31)

/-- the queue and the callbacks -/
structure Good (s : TimerState) : Prop where
  /-- the queue is sorted -/
  sorted : s.timerQueue.Pairwise fun x y => ¬lt (s.timer y).scheduledTime (s.timer x).scheduledTime
  nodup : s.timerQueue.Nodup
  /-- the monitor is right -/
  scheduled : ∀ t ∈ s.timerQueue, (s.timer t).scheduledTime = BitVec.ofNat 32 (s.deadline t)
  /-- no callback runs before its time -/
  early : ∀ t d n, .fire t d n ∈ s.log → d ≤ n
  /-- callbacks run in scheduled order -/
  order : ∀ l₁ l₂ t d n, s.log = l₁ ++ .fire t d n :: l₂ → ∀ u e m, .fire u e m ∈ l₂ → e ≤ d
  /-- a oneshot fires once -/
  once : ∀ l₁ l₂ l₃ l₄ t d n e m, s.log = l₁ ++ .fire t d n :: (l₂ ++ .fire t e m :: (l₃ ++ .set t false :: l₄)) →
    ∃ p, .set t p ∈ l₂ ∨ .set t p ∈ l₃
  /-- a cancelled timer does not fire until it is set -/
  cancelled : ∀ l₁ l₂ l₃ t d n, s.log = l₁ ++ .fire t d n :: (l₂ ++ .cancel t :: l₃) → ∃ p, .set t p ∈ l₂
  /-- a periodic timer is in the queue until it is cancelled or set as another -/
  periodic : ∀ l₁ l₂ t, s.log = l₁ ++ .set t true :: l₂ → .cancel t ∉ l₁ → (∀ p, .set t p ∉ l₁) → t ∈ s.timerQueue

/-- the hardware timer is to fire by the time of the head, or now if that is past -/
def Armed (s : TimerState) : Prop :=
  ∀ t, s.timerQueue.head? = some t → ∃ h, s.hw = some h ∧ h ≤ max s.clock (s.deadline t)

/-- the hardware timer is to fire by the time of the head -/
def ArmedInTime (s : TimerState) : Prop := ∀ t, s.timerQueue.head? = some t → ∃ h, s.hw = some h ∧ h ≤ s.deadline t

/-! ## licences -/

/-- whether a timer is to fire -/
inductive Licence where
  | idle
  | once
  | again
  deriving DecidableEq

def licence : List Ev → Nat → Licence
  | [], _ => .idle
  | .set u periodic :: l, t => if u = t then (if periodic then .again else .once) else licence l t
  | .cancel u :: l, t => if u = t then .idle else licence l t
  | .fire u _ _ :: l, t => if u = t ∧ licence l t = .once then .idle else licence l t

/-- each callback had a licence, its time had come, and no callback of a later time had run -/
def Lawful : List Ev → Prop
  | [] => True
  | .fire t d n :: l => (licence l t ≠ .idle ∧ d ≤ n ∧ ∀ u e m, .fire u e m ∈ l → e ≤ d) ∧ Lawful l
  | .set _ _ :: l => Lawful l
  | .cancel _ :: l => Lawful l

theorem Lawful.fire {t d n : Nat} {l₁ l₂ : List Ev} (h : Lawful (l₁ ++ .fire t d n :: l₂)) :
    licence l₂ t ≠ .idle ∧ d ≤ n ∧ ∀ u e m, .fire u e m ∈ l₂ → e ≤ d := by
  induction l₁ with
  | nil => exact h.1
  | cons e l ih =>
    cases e with
    | set u p => exact ih h
    | cancel u => exact ih h
    | fire u e m => exact ih h.2

section
variable {t : Nat} {l₁ l₂ : List Ev}

/-- only a call of `timer_set` gives a licence -/
theorem licence_idle (hs : ∀ p, .set t p ∉ l₁) (h : licence l₂ t = .idle) : licence (l₁ ++ l₂) t = .idle := by
  induction l₁ with
  | nil => exact h
  | cons e l ih =>
    have ih := ih fun p hp => hs p (.tail _ hp)
    cases e with
    | set u p =>
      have hu : u ≠ t := fun hu => hs p (hu ▸ .head _)
      exact (if_neg hu).trans ih
    | cancel u =>
      show (if u = t then _ else _) = _
      split
      · rfl
      · exact ih
    | fire u d n =>
      show (if u = t ∧ _ then _ else _) = _
      split
      · rfl
      · exact ih

theorem licence_not_again (hs : ∀ p, .set t p ∉ l₁) (h : licence l₂ t ≠ .again) : licence (l₁ ++ l₂) t ≠ .again := by
  induction l₁ with
  | nil => exact h
  | cons e l ih =>
    have ih := ih fun p hp => hs p (.tail _ hp)
    cases e with
    | set u p =>
      have hu : u ≠ t := fun hu => hs p (hu ▸ .head _)
      intro hx
      exact ih ((if_neg hu).symm.trans hx)
    | cancel u =>
      show (if u = t then _ else _) ≠ _
      split
      · exact Licence.noConfusion
      · exact ih
    | fire u d n =>
      show (if u = t ∧ _ then _ else _) ≠ _
      split
      · exact Licence.noConfusion
      · exact ih

/-- a periodic timer keeps its licence -/
theorem licence_again (hs : ∀ p, .set t p ∉ l₁) (hc : .cancel t ∉ l₁) (h : licence l₂ t = .again) :
    licence (l₁ ++ l₂) t = .again := by
  induction l₁ with
  | nil => exact h
  | cons e l ih =>
    have ih := ih (fun p hp => hs p (.tail _ hp)) fun hp => hc (.tail _ hp)
    cases e with
    | set u p =>
      have hu : u ≠ t := fun hu => hs p (hu ▸ .head _)
      exact (if_neg hu).trans ih
    | cancel u =>
      have hu : u ≠ t := fun hu => hc (hu ▸ .head _)
      exact (if_neg hu).trans ih
    | fire u d n =>
      refine (if_neg fun hx => ?_).trans ih
      have hx2 : licence (l ++ l₂) t = .once := hx.2
      rw [ih] at hx2
      cases hx2

/-- after its callback a oneshot has no licence -/
theorem licence_fire {d n : Nat} (h : licence l₂ t ≠ .again) : licence (.fire t d n :: l₂) t = .idle := by
  show (if t = t ∧ licence l₂ t = .once then Licence.idle else licence l₂ t) = .idle
  split
  · rfl
  · rename_i hx
    cases hl : licence l₂ t with
    | idle => rfl
    | once => exact absurd ⟨rfl, hl⟩ hx
    | again => exact absurd hl h

end

/-! ## the invariant -/

/-- the invariant; the timers of `cur` may have a licence and be out of the queue -/
structure Core (s : TimerState) (cur : Nat → Licence → Prop) : Prop where
  sorted : s.timerQueue.Pairwise fun x y => s.deadline x ≤ s.deadline y
  nodup : s.timerQueue.Nodup
  scheduled : ∀ t ∈ s.timerQueue, (s.timer t).scheduledTime = BitVec.ofNat 32 (s.deadline t)
  range : Window 32 s.times
  queued : ∀ t ∈ s.timerQueue, licence s.log t ≠ .idle
  listed : ∀ t, licence s.log t ≠ .idle → t ∈ s.timerQueue ∨ cur t (licence s.log t)
  periodic : ∀ t, licence s.log t = .again ↔ (s.timer t).periodicTime ≠ 0
  past : ∀ t d n, .fire t d n ∈ s.log → n ≤ s.clock ∧ ∀ u ∈ s.timerQueue, d ≤ s.deadline u
  lawful : Lawful s.log

/-- no timer is out of the queue -/
def noTimer : Nat → Licence → Prop := fun _ _ => False

theorem Core.good {s : TimerState} (h : Core s noTimer) : Good s where
  sorted := by
    refine h.sorted.imp_of_mem fun {x y} hx hy hxy => ?_
    rw [h.scheduled x hx, h.scheduled y hy, lt_ofNat h.range (.tail _ (List.mem_map_of_mem hy))
      (.tail _ (List.mem_map_of_mem hx))]
    exact Nat.not_lt.mpr hxy
  nodup := h.nodup
  scheduled := h.scheduled
  early t d n hf := by
    obtain ⟨l₁, l₂, hl⟩ := List.append_of_mem hf
    have hlaw := h.lawful
    rw [hl] at hlaw
    exact hlaw.fire.2.1
  order l₁ l₂ t d n hl := by
    have hlaw := h.lawful
    rw [hl] at hlaw
    exact hlaw.fire.2.2
  once l₁ l₂ l₃ l₄ t d n e m hl := by
    have hlaw := h.lawful
    rw [hl] at hlaw
    by_contra hno
    have h3 : licence (l₃ ++ .set t false :: l₄) t ≠ .again := by
      refine licence_not_again (fun p hp => hno ⟨p, .inr hp⟩) ?_
      show (if t = t then Licence.once else _) ≠ _
      rw [if_pos rfl]
      exact Licence.noConfusion
    exact hlaw.fire.1 (licence_idle (fun p hp => hno ⟨p, .inl hp⟩) (licence_fire h3))
  cancelled l₁ l₂ l₃ t d n hl := by
    have hlaw := h.lawful
    rw [hl] at hlaw
    by_contra hno
    exact hlaw.fire.1 (licence_idle (fun p hp => hno ⟨p, hp⟩) (if_pos rfl))
  periodic l₁ l₂ t hl hc hs := by
    have hlic : licence s.log t = .again := by
      rw [hl]
      exact licence_again hs hc (if_pos rfl)
    rcases h.listed t (by rw [hlic]; exact Licence.noConfusion) with hq | hq
    · exact hq
    · exact absurd hq id

/-! ## linking a timer -/

section
variable {timer : Nat → Timer} {t : Nat} {q : List Nat}

theorem insertTimerInQueue_perm : (insertTimerInQueue timer t q).Perm (t :: q) := by
  induction q with
  | nil => exact .refl _
  | cons e q ih =>
    unfold insertTimerInQueue
    split
    · exact .refl _
    · exact (List.Perm.cons e ih).trans (.swap ..)

theorem mem_insertTimerInQueue {u : Nat} : u ∈ insertTimerInQueue timer t q ↔ u = t ∨ u ∈ q := by
  rw [insertTimerInQueue_perm.mem_iff, List.mem_cons]

/-- the new timer is the head, or the old one stays -/
theorem insertTimerInQueue_head (h : (insertTimerInQueue timer t q).head? ≠ some t) :
    (insertTimerInQueue timer t q).head? = q.head? := by
  cases q with
  | nil => exact absurd rfl h
  | cons e q =>
    unfold insertTimerInQueue at h ⊢
    split
    · rename_i hgt
      rw [if_pos hgt] at h
      exact absurd rfl h
    · rfl

/-- the queue stays sorted by a key that the comparison is right about -/
theorem insertTimerInQueue_sorted {key : Nat → Nat} (hq : q.Pairwise fun x y => key x ≤ key y)
    (hkey : ∀ e ∈ q, gt (timer e).scheduledTime (timer t).scheduledTime ↔ key t < key e) :
    (insertTimerInQueue timer t q).Pairwise fun x y => key x ≤ key y := by
  induction q with
  | nil => exact List.pairwise_singleton ..
  | cons e q ih =>
    obtain ⟨he, hq'⟩ := List.pairwise_cons.mp hq
    have hrec := ih hq' fun x hx => hkey x (.tail _ hx)
    unfold insertTimerInQueue
    split
    · rename_i hgt
      have hlt := (hkey e (.head _)).mp hgt
      refine List.pairwise_cons.mpr ⟨fun x hx => ?_, hq⟩
      rcases List.mem_cons.mp hx with rfl | hx
      · exact hlt.le
      · exact hlt.le.trans (he x hx)
    · rename_i hgt
      have hle := Nat.not_lt.mp fun hlt => hgt ((hkey e (.head _)).mpr hlt)
      refine List.pairwise_cons.mpr ⟨fun x hx => ?_, hrec⟩
      rcases mem_insertTimerInQueue.mp hx with rfl | hx
      · exact hle
      · exact he x hx

end

/-- timers whose time has come -/
def due (s : TimerState) : Nat := s.timerQueue.countP fun t => s.deadline t ≤ s.clock

/-- what linking a timer changes -/
structure Scheduled (s s' : TimerState) (t delay : Nat) : Prop where
  clock : s'.clock = s.clock
  log : s'.log = s.log
  hw : s'.hw = s.hw
  periodicTime : ∀ u, (s'.timer u).periodicTime = (s.timer u).periodicTime
  mem : ∀ u, u ∈ s'.timerQueue ↔ u = t ∨ u ∈ s.timerQueue
  self : s'.deadline t = s.clock + delay
  other : ∀ u, u ≠ t → s'.deadline u = s.deadline u
  head : s'.timerQueue.head? ≠ some t → s'.timerQueue.head? = s.timerQueue.head?
  inRange : s'.inRange → s.inRange

section
variable {s s' : TimerState} {cur c : Nat → Licence → Prop}

theorem schedule_scheduled (R : Nat → List Nat → Bool) (s : TimerState) (t : Nat) (delay : LkTime) :
    Scheduled s (schedule R s t delay) t delay.toNat where
  clock := rfl
  log := rfl
  hw := rfl
  periodicTime u := by
    show (Function.update s.timer t _ u).periodicTime = _
    by_cases h : u = t
    · rw [h, Function.update_self]
    · rw [Function.update_of_ne h]
  mem _ := mem_insertTimerInQueue
  self := Function.update_self _ _ _
  other _ h := Function.update_of_ne h _ _
  head h := insertTimerInQueue_head h
  inRange h := (TimerState.seen_inRange.mp h).1

/-- **A timer is linked.** -/
theorem Core.schedule (h : Core s cur) {t : Nat} {delay : LkTime} (ht : t ∉ s.timerQueue)
    (hl : licence s.log t ≠ .idle) (hd : delay ≠ 0) (hr : (schedule inWindow s t delay).inRange)
    (hcur : ∀ u l, cur u l → u = t ∨ c u l) :
    Core (TimerQueue.schedule inWindow s t delay) c ∧ due (TimerQueue.schedule inWindow s t delay) ≤ due s := by
  have hs := schedule_scheduled inWindow s t delay
  have hpos : 0 < delay.toNat := by
    rcases Nat.eq_zero_or_pos delay.toNat with h0 | h0
    · exact absurd (BitVec.eq_of_toNat_eq h0) hd
    · exact h0
  have hrange : Window 32 (TimerQueue.schedule inWindow s t delay).times :=
    of_decide_eq_true (TimerState.seen_inRange.mp hr).2
  generalize hs' : TimerQueue.schedule inWindow s t delay = s' at hs hr hrange
  have hold : ∀ u ∈ s.timerQueue, s'.deadline u = s.deadline u := fun u hu => hs.other u fun hut => ht (hut ▸ hu)
  have hsched : ∀ u ∈ s'.timerQueue, (s'.timer u).scheduledTime = BitVec.ofNat 32 (s'.deadline u) := by
    intro u hu
    by_cases hut : u = t
    · subst hut
      rw [hs.self, ← hs']
      show (Function.update s.timer u _ u).scheduledTime = _
      rw [Function.update_self, BitVec.ofNat_add, BitVec.ofNat_toNat, BitVec.setWidth_eq]
      rfl
    · have hu' := ((hs.mem u).mp hu).resolve_left hut
      rw [hold u hu', ← h.scheduled u hu', ← hs']
      show (Function.update s.timer t _ u).scheduledTime = _
      rw [Function.update_of_ne hut]
  have hperm : s'.timerQueue.Perm (t :: s.timerQueue) := by
    rw [← hs']
    exact insertTimerInQueue_perm
  refine ⟨⟨?_, ?_, hsched, hrange, fun u hu => ?_, fun u hu => ?_, fun u => ?_, fun u d n hf => ?_, ?_⟩, ?_⟩
  · have hkey : s.timerQueue.Pairwise fun x y => s'.deadline x ≤ s'.deadline y := by
      refine h.sorted.imp_of_mem fun {x y} hx hy hxy => ?_
      rw [hold x hx, hold y hy]
      exact hxy
    have hq : s'.timerQueue = insertTimerInQueue s'.timer t s.timerQueue := by
      rw [← hs']
      rfl
    rw [hq]
    refine insertTimerInQueue_sorted hkey fun e he => ?_
    have he' := (hs.mem e).mpr (.inr he)
    have ht' := (hs.mem t).mpr (.inl rfl)
    rw [hsched e he', hsched t ht', gt_ofNat hrange (.tail _ (List.mem_map_of_mem he'))
      (.tail _ (List.mem_map_of_mem ht'))]
  · exact hperm.nodup_iff.mpr (List.nodup_cons.mpr ⟨ht, h.nodup⟩)
  · rw [hs.log]
    rcases (hs.mem u).mp hu with rfl | hu
    · exact hl
    · exact h.queued u hu
  · rw [hs.log] at hu ⊢
    rcases h.listed u hu with hq | hc
    · exact .inl ((hs.mem u).mpr (.inr hq))
    · rcases hcur u _ hc with rfl | hc
      · exact .inl ((hs.mem u).mpr (.inl rfl))
      · exact .inr hc
  · rw [hs.log, hs.periodicTime]
    exact h.periodic u
  · rw [hs.log] at hf
    obtain ⟨h1, h2⟩ := h.past u d n hf
    rw [hs.clock]
    refine ⟨h1, fun v hv => ?_⟩
    rcases (hs.mem v).mp hv with rfl | hv
    · obtain ⟨l₁, l₂, hl⟩ := List.append_of_mem hf
      have hlaw := h.lawful
      rw [hl] at hlaw
      have := hlaw.fire.2.1
      rw [hs.self]
      lia
    · rw [hold v hv]
      exact h2 v hv
  · rw [hs.log]
    exact h.lawful
  · unfold due
    rw [hperm.countP_eq, List.countP_cons_of_neg (by rw [hs.self, hs.clock, decide_eq_true_iff]; lia), hs.clock]
    refine (List.countP_congr fun u hu => ?_).le
    rw [hold u hu]

/-! ## the calls -/

/-- the result of `timer_set` -/
theorem timerSet_eq {R : Nat → List Nat → Bool} {t : Nat} {delay period : LkTime} {callback : Option Nat} {arg : Nat}
    (h : timerSet R s t delay period callback arg = some s') : t ∉ s.timerQueue ∧ ∃ s₀, s₀.clock = s.clock ∧
      s₀.timerQueue = s.timerQueue ∧ s₀.deadline = s.deadline ∧ s₀.hw = s.hw ∧ s₀.inRange = s.inRange ∧
      s₀.log = .set t (period ≠ 0) :: s.log ∧ (s₀.timer t).periodicTime = period ∧
      (∀ u, u ≠ t → s₀.timer u = s.timer u) ∧ s' = if (schedule R s₀ t delay).timerQueue.head? = some t then
        platformSetOneshotTimer (schedule R s₀ t delay) delay else schedule R s₀ t delay := by
  unfold timerSet at h
  split at h
  · cases h
  rename_i ht
  cases h
  refine ⟨ht, { s with timer := Function.update s.timer t _, log := _ }, rfl, rfl, rfl, rfl, rfl, rfl, ?_, ?_, rfl⟩
  · show (Function.update s.timer t _ t).periodicTime = period
    rw [Function.update_self]
  · exact fun u hu => Function.update_of_ne hu _ _

/-- a call to `timer_set` and one to `timer_cancel` keep the invariant, and make no timer due -/
structure Kept (s s' : TimerState) (cur : Nat → Licence → Prop) : Prop where
  core : Core s' cur
  clock : s'.clock = s.clock
  due : due s' ≤ due s

theorem timerSet_inRange {R : Nat → List Nat → Bool} {t : Nat} {delay period : LkTime} {callback : Option Nat}
    {arg : Nat} (h : timerSet R s t delay period callback arg = some s') (hr : s'.inRange) : s.inRange := by
  obtain ⟨-, s₀, -, -, -, -, hin, -, -, -, rfl⟩ := timerSet_eq h
  rw [← hin]
  split at hr
  · exact (TimerState.seen_inRange.mp hr).1
  · exact (TimerState.seen_inRange.mp hr).1

theorem Core.timerSet (h : Core s cur) {t : Nat} {delay period : LkTime} {callback : Option Nat} {arg : Nat}
    (he : TimerQueue.timerSet inWindow s t delay period callback arg = some s') (hd : delay ≠ 0) (hr : s'.inRange) :
    Kept s s' cur := by
  obtain ⟨ht, s₀, hclock, hq, hdl, -, -, hlog, hper, hother, rfl⟩ := timerSet_eq he
  have hlic : ∀ u, licence s₀.log u = if t = u then (if period ≠ 0 then .again else .once) else licence s.log u := by
    intro u
    rw [hlog]
    show (if t = u then (if decide (period ≠ 0) = true then Licence.again else .once) else _) = _
    simp only [decide_eq_true_eq]
  have hself : licence s₀.log t ≠ .idle := by
    rw [hlic, if_pos rfl]
    split
    · exact Licence.noConfusion
    · exact Licence.noConfusion
  have hne : ∀ u, u ≠ t → licence s₀.log u = licence s.log u := fun u hu => by rw [hlic, if_neg hu.symm]
  have hmem : ∀ u ∈ s.timerQueue, u ≠ t := fun u hu hut => ht (hut ▸ hu)
  have h₀ : Core s₀ fun u l => u = t ∨ cur u l := by
    refine ⟨?_, ?_, fun u hu => ?_, ?_, fun u hu => ?_, fun u hu => ?_, fun u => ?_, fun u d n hf => ?_, ?_⟩
    · rw [hq, hdl]
      exact h.sorted
    · rw [hq]
      exact h.nodup
    · rw [hq] at hu
      rw [hother u (hmem u hu), hdl]
      exact h.scheduled u hu
    · unfold TimerState.times
      rw [hq, hdl, hclock]
      exact h.range
    · rw [hq] at hu
      rw [hne u (hmem u hu)]
      exact h.queued u hu
    · by_cases hut : u = t
      · exact .inr (.inl hut)
      · rw [hne u hut] at hu ⊢
        rw [hq]
        exact (h.listed u hu).imp_right .inr
    · by_cases hut : u = t
      · subst hut
        rw [hlic, if_pos rfl, hper]
        split
        · rename_i hp
          exact iff_of_true rfl hp
        · rename_i hp
          exact iff_of_false Licence.noConfusion hp
      · rw [hne u hut, hother u hut]
        exact h.periodic u
    · rw [hlog] at hf
      rw [hclock, hq, hdl]
      exact h.past u d n ((List.mem_cons.mp hf).resolve_left Ev.noConfusion)
    · rw [hlog]
      exact h.lawful
  have ht₀ : t ∉ s₀.timerQueue := by
    rw [hq]
    exact ht
  have hr₀ : (TimerQueue.schedule inWindow s₀ t delay).inRange := by
    split at hr
    · exact hr
    · exact hr
  obtain ⟨hcore, hdue⟩ := h₀.schedule (c := cur) ht₀ hself hd hr₀ fun u l hu => hu
  have hdue₀ : due s₀ = due s := by
    unfold due
    rw [hq, hdl, hclock]
  rw [hdue₀] at hdue
  split
  · exact ⟨⟨hcore.1, hcore.2, hcore.3, hcore.4, hcore.5, hcore.6, hcore.7, hcore.8, hcore.9⟩, hclock, hdue⟩
  · exact ⟨hcore, hclock, hdue⟩

/-- the queue after `timer_cancel` -/
theorem timerCancel_eq (s : TimerState) (t : Nat) : (timerCancel s t).clock = s.clock ∧
    (timerCancel s t).timerQueue = s.timerQueue.erase t ∧ (timerCancel s t).deadline = s.deadline ∧
    (timerCancel s t).log = .cancel t :: s.log ∧ (timerCancel s t).inRange = s.inRange ∧
    ((timerCancel s t).timer t).periodicTime = 0 ∧ ∀ u, u ≠ t → (timerCancel s t).timer u = s.timer u := by
  have hself : (Function.update s.timer t { s.timer t with periodicTime := 0, callback := none, arg := 0 } t).periodicTime
      = 0 := by
    rw [Function.update_self]
  have hother : ∀ u, u ≠ t →
      Function.update s.timer t { s.timer t with periodicTime := 0, callback := none, arg := 0 } u = s.timer u :=
    fun u hu => Function.update_of_ne hu _ _
  unfold timerCancel
  dsimp only
  split
  · exact ⟨rfl, rfl, rfl, rfl, rfl, hself, hother⟩
  · split
    · exact ⟨rfl, rfl, rfl, rfl, rfl, hself, hother⟩
    · exact ⟨rfl, rfl, rfl, rfl, rfl, hself, hother⟩

theorem Core.timerCancel (h : Core s cur) (t : Nat) : Kept s (timerCancel s t) cur := by
  obtain ⟨hclock, hq, hdl, hlog, -, hper, hother⟩ := timerCancel_eq s t
  generalize TimerQueue.timerCancel s t = s' at hclock hq hdl hlog hper hother
  have hsub : s'.timerQueue.Sublist s.timerQueue := by
    rw [hq]
    exact List.erase_sublist
  have hmem : ∀ u ∈ s'.timerQueue, u ∈ s.timerQueue ∧ u ≠ t := by
    intro u hu
    rw [hq, h.nodup.mem_erase_iff] at hu
    exact ⟨hu.2, hu.1⟩
  have hne : ∀ u, u ≠ t → licence s'.log u = licence s.log u := by
    intro u hu
    rw [hlog]
    exact if_neg hu.symm
  have hself : licence s'.log t = .idle := by
    rw [hlog]
    exact if_pos rfl
  refine ⟨⟨?_, h.nodup.sublist hsub, fun u hu => ?_, ?_, fun u hu => ?_, fun u hu => ?_, fun u => ?_,
    fun u d n hf => ?_, ?_⟩, hclock, ?_⟩
  · rw [hdl]
    exact h.sorted.sublist hsub
  · rw [hother u (hmem u hu).2, hdl]
    exact h.scheduled u (hmem u hu).1
  · refine h.range.mono fun a ha => ?_
    unfold TimerState.times at ha ⊢
    rw [hclock, hdl] at ha
    rcases List.mem_cons.mp ha with rfl | ha
    · exact .head _
    · exact .tail _ (List.map_subset _ hsub.subset ha)
  · rw [hne u (hmem u hu).2]
    exact h.queued u (hmem u hu).1
  · have hut : u ≠ t := fun hut => hu (hut ▸ hself)
    rw [hne u hut] at hu ⊢
    rw [hq, h.nodup.mem_erase_iff]
    exact (h.listed u hu).imp_left fun hq => ⟨hut, hq⟩
  · by_cases hut : u = t
    · subst hut
      rw [hself, hper]
      exact iff_of_false Licence.noConfusion fun h0 => h0 rfl
    · rw [hne u hut, hother u hut]
      exact h.periodic u
  · rw [hlog] at hf
    obtain ⟨h1, h2⟩ := h.past u d n ((List.mem_cons.mp hf).resolve_left Ev.noConfusion)
    rw [hclock, hdl]
    exact ⟨h1, fun v hv => h2 v (hsub.subset hv)⟩
  · rw [hlog]
    exact h.lawful
  · unfold due
    rw [hclock, hdl]
    exact hsub.countP_le

theorem act_inRange {R : Nat → List Nat → Bool} {a : Act} (h : act R s a = some s') (hr : s'.inRange) : s.inRange := by
  cases a with
  | setOneshot t delay callback arg => exact timerSet_inRange h hr
  | setPeriodic t period callback arg => exact timerSet_inRange h hr
  | cancel t =>
    cases h
    rw [(timerCancel_eq s t).2.2.2.2.1] at hr
    exact hr

/-- **A call keeps the invariant.** -/
theorem Core.act (h : Core s cur) {a : Act} (he : TimerQueue.act inWindow s a = some s') (hr : s'.inRange) :
    Kept s s' cur := by
  have hpos : ∀ d : LkTime, (if d = 0 then 1 else d) ≠ 0 := by
    intro d
    split
    · decide
    · assumption
  cases a with
  | setOneshot t delay callback arg => exact h.timerSet he (hpos delay) hr
  | setPeriodic t period callback arg => exact h.timerSet he (hpos period) hr
  | cancel t =>
    cases he
    exact h.timerCancel t

theorem runActs_inRange {R : Nat → List Nat → Bool} {as : List Act} (h : runActs R as s = some s') (hr : s'.inRange) :
    s.inRange := by
  induction as generalizing s with
  | nil =>
    cases h
    exact hr
  | cons a as ih =>
    obtain ⟨u, hu, h'⟩ := Option.bind_eq_some_iff.mp h
    exact act_inRange hu (ih h')

theorem Core.runActs (h : Core s cur) {as : List Act} (he : TimerQueue.runActs inWindow as s = some s')
    (hr : s'.inRange) : Kept s s' cur := by
  induction as generalizing s with
  | nil =>
    cases he
    exact ⟨h, rfl, le_rfl⟩
  | cons a as ih =>
    obtain ⟨u, hu, h'⟩ := Option.bind_eq_some_iff.mp he
    have h1 := h.act hu (runActs_inRange h' hr)
    have h2 := ih h1.core h'
    exact ⟨h2.core, h2.clock.trans h1.clock, h2.due.trans h1.due⟩

/-! ## the tick -/

/-- **A callback begins**: the head is off the queue. -/
theorem Core.fire (h : Core s noTimer) {t : Nat} {q : List Nat} (hq : s.timerQueue = t :: q)
    (hd : s.deadline t ≤ s.clock)
    (hs' : s' = { s with timerQueue := q, log := .fire t (s.deadline t) s.clock :: s.log }) :
    Core s' (fun u l => u = t ∧ l = .again ∧ (s.timer t).periodicTime ≠ 0) ∧ due s' + 1 = due s := by
  have hsorted := h.sorted
  have hnodup := h.nodup
  rw [hq, List.pairwise_cons] at hsorted
  rw [hq, List.nodup_cons] at hnodup
  have hmem : ∀ u ∈ q, u ∈ s.timerQueue := fun u hu => by rw [hq]; exact .tail _ hu
  have hlic : ∀ u, licence s'.log u = if t = u ∧ licence s.log u = .once then .idle else licence s.log u := by
    intro u
    rw [hs']
    rfl
  subst hs'
  refine ⟨⟨hsorted.2, hnodup.2, fun u hu => h.scheduled u (hmem u hu), ?_, fun u hu => ?_, fun u hu => ?_, fun u => ?_,
    fun u d n hf => ?_, ?_⟩, ?_⟩
  · refine h.range.mono fun a ha => ?_
    rcases List.mem_cons.mp ha with rfl | ha
    · exact .head _
    · exact .tail _ (List.map_subset _ hmem ha)
  · have htu : t ≠ u := fun htu => hnodup.1 (htu ▸ hu)
    rw [hlic, if_neg fun hx => htu hx.1]
    exact h.queued u (hmem u hu)
  · rw [hlic] at hu ⊢
    split at hu
    · exact absurd rfl hu
    rename_i hno
    rw [if_neg hno]
    have hin := (h.listed u hu).resolve_right id
    rw [hq] at hin
    rcases List.mem_cons.mp hin with rfl | hin
    · have hag : licence s.log u = .again := by
        cases hl : licence s.log u with
        | idle => exact absurd hl hu
        | once => exact absurd ⟨rfl, hl⟩ hno
        | again => rfl
      exact .inr ⟨rfl, hag, (h.periodic u).mp hag⟩
    · exact .inl hin
  · rw [hlic, ← h.periodic u]
    split
    · rename_i hx
      rw [hx.2]
      exact iff_of_false Licence.noConfusion Licence.noConfusion
    · exact Iff.rfl
  · rcases List.mem_cons.mp hf with hf | hf
    · cases hf
      exact ⟨le_rfl, hsorted.1⟩
    · obtain ⟨h1, h2⟩ := h.past u d n hf
      exact ⟨h1, fun v hv => h2 v (hmem v hv)⟩
  · have ht : t ∈ s.timerQueue := by
      rw [hq]
      exact .head _
    exact ⟨⟨h.queued t ht, hd, fun u e m hf => (h.past u e m hf).2 t ht⟩, h.lawful⟩
  · unfold due
    rw [hq]
    exact (List.countP_cons_of_pos (p := fun u => decide (s.deadline u ≤ s.clock)) (decide_eq_true hd)).symm

/-- the state after a callback, with the timer in the queue again if it is periodic -/
def requeue (R : Nat → List Nat → Bool) (s : TimerState) (t : Nat) (periodic : Prop) [Decidable periodic] : TimerState :=
  if periodic ∧ t ∉ s.timerQueue ∧ (s.timer t).periodicTime ≠ 0 then schedule R s t (s.timer t).periodicTime else s

theorem requeue_inRange {R : Nat → List Nat → Bool} {t : Nat} {p : Prop} [Decidable p]
    (h : (requeue R s t p).inRange) : s.inRange := by
  unfold requeue at h
  split at h
  · exact (TimerState.seen_inRange.mp h).1
  · exact h

/-- **A callback is over.** -/
theorem Core.requeue {t : Nat} {p : Prop} [Decidable p] (h : Core s fun u l => u = t ∧ l = .again ∧ p)
    (hr : (requeue inWindow s t p).inRange) : Kept s (requeue inWindow s t p) noTimer := by
  unfold TimerQueue.requeue at hr ⊢
  split
  · rename_i hx
    rw [if_pos hx] at hr
    have hag := (h.periodic t).mpr hx.2.2
    obtain ⟨h1, h2⟩ := h.schedule (c := noTimer) hx.2.1 (by rw [hag]; exact Licence.noConfusion) hx.2.2 hr
      fun u l hu => .inl hu.1
    exact ⟨h1, rfl, h2⟩
  · rename_i hx
    refine ⟨{ h with listed := fun u hu => .inl ?_ }, rfl, le_rfl⟩
    rcases h.listed u hu with hq | ⟨rfl, hag, hp⟩
    · exact hq
    · by_contra hq
      exact hx ⟨hp, hq, (h.periodic u).mp hag⟩

theorem tickLoop_inRange {R : Nat → List Nat → Bool} {call : Nat → Nat → Nat → Nat → Call} {n : Nat} :
    ∀ {s : TimerState} {ret : Bool} {r : TimerState × Bool}, tickLoop R call n s ret = some r → r.1.inRange →
      s.inRange := by
  induction n with
  | zero =>
    intro s ret r h hr
    cases h
    exact hr
  | succ n ih =>
    intro s ret r h hr
    unfold tickLoop at h
    split at h
    · cases h
      exact hr
    dsimp only at h
    split at h
    · cases h
      exact hr
    split at h
    · cases h
    obtain ⟨u, hu, h'⟩ := Option.bind_eq_some_iff.mp h
    have hin := runActs_inRange hu (requeue_inRange (ih h' hr))
    exact hin

/-- **The loop of `timer_tick`.**  It keeps the invariant, and with a round for each timer that is due it goes on to
the end. -/
theorem Core.tickLoop {call : Nat → Nat → Nat → Nat → Call} {n : Nat} :
    ∀ {s : TimerState} {ret : Bool} {r : TimerState × Bool}, Core s noTimer →
      TimerQueue.tickLoop inWindow call n s ret = some r → r.1.inRange →
      Core r.1 noTimer ∧ r.1.clock = s.clock ∧ (due s ≤ n → ∀ t ∈ r.1.timerQueue, s.clock < r.1.deadline t) := by
  induction n with
  | zero =>
    intro s ret r h he hr
    cases he
    refine ⟨h, rfl, fun hn t ht => ?_⟩
    have := List.countP_eq_zero.mp (Nat.le_zero.mp hn) t ht
    rw [decide_eq_true_iff] at this
    exact Nat.not_le.mp this
  | succ n ih =>
    intro s ret r h he hr
    unfold TimerQueue.tickLoop at he
    split at he
    · rename_i hq
      cases he
      refine ⟨h, rfl, fun _ t ht => ?_⟩
      rw [hq] at ht
      cases ht
    rename_i t q hq
    have ht : t ∈ s.timerQueue := by
      rw [hq]
      exact .head _
    have hlt : lt s.currentTime (s.timer t).scheduledTime ↔ s.clock < s.deadline t := by
      rw [h.scheduled t ht]
      exact lt_ofNat h.range (.head _) (.tail _ (List.mem_map_of_mem ht))
    dsimp only at he
    split at he
    · rename_i hx
      cases he
      refine ⟨h, rfl, fun _ u hu => (hlt.mp hx).trans_le ?_⟩
      have hsorted := h.sorted
      rw [hq, List.pairwise_cons] at hsorted
      rw [hq] at hu
      rcases List.mem_cons.mp hu with rfl | hu
      · exact le_rfl
      · exact hsorted.1 u hu
    rename_i hx
    split at he
    · cases he
    obtain ⟨u, hu, h'⟩ := Option.bind_eq_some_iff.mp he
    -- the callback, with the timer off the queue, and then the timer in the queue again
    obtain ⟨h1, hdue⟩ := h.fire hq (Nat.not_lt.mp fun hy => hx (hlt.mpr hy)) rfl
    have hr' := tickLoop_inRange h' hr
    have h2 := h1.runActs hu (requeue_inRange hr')
    have h3 := h2.core.requeue hr'
    obtain ⟨h4, h5, h6⟩ := ih h3.core h' hr
    have hclock := h3.clock.trans h2.clock
    refine ⟨h4, h5.trans hclock, fun hn v hv => ?_⟩
    have := h2.due
    have := h3.due
    have hv := h6 (by lia) v hv
    rw [hclock] at hv
    exact hv

theorem timerTick_inRange {R : Nat → List Nat → Bool} {call : Nat → Nat → Nat → Nat → Call} {r : TimerState × Bool}
    (he : timerTick R s call = some r) (hr : r.1.inRange) : s.inRange := by
  obtain ⟨r', he', hr'⟩ := Option.map_eq_some_iff.mp he
  have hin : r'.1.inRange := by
    rw [← hr'] at hr
    split at hr
    · exact hr
    · exact hr
  have hs := tickLoop_inRange he' hin
  exact hs

/-- **A tick** keeps the invariant, leaves no timer due, and arms the hardware timer for the head. -/
theorem Core.timerTick (h : Core s noTimer) {call : Nat → Nat → Nat → Nat → Call} {r : TimerState × Bool}
    (he : timerTick inWindow s call = some r) (hr : r.1.inRange) : Core r.1 noTimer ∧ Armed r.1 := by
  obtain ⟨r', he', hr'⟩ := Option.map_eq_some_iff.mp he
  have h₀ : Core (platformStopTimer s) noTimer :=
    ⟨h.sorted, h.nodup, h.scheduled, h.range, h.queued, h.listed, h.periodic, h.past, h.lawful⟩
  have hin : r'.1.inRange := by
    rw [← hr'] at hr
    split at hr
    · exact hr
    · exact hr
  obtain ⟨h1, h2, h3⟩ := h₀.tickLoop he' hin
  have hend := h3 List.countP_le_length
  rw [← hr']
  split
  · rename_i hq
    refine ⟨h1, fun t ht => ?_⟩
    rw [hq] at ht
    cases ht
  · rename_i t hq
    refine ⟨⟨h1.sorted, h1.nodup, h1.scheduled, h1.range, h1.queued, h1.listed, h1.periodic, h1.past, h1.lawful⟩,
      fun u hu => ⟨_, rfl, ?_⟩⟩
    have hu' : r'.1.timerQueue.head? = some u := hu
    rw [hq] at hu'
    cases hu'
    have ht := List.mem_of_mem_head? hq
    have hlt := hend t ht
    have hclock : r'.1.clock < r'.1.deadline t := h2.trans_lt hlt
    have hwin := h1.range _ (.tail _ (List.mem_map_of_mem ht)) _ (.head _)
    show r'.1.clock + ((r'.1.timer t).scheduledTime - r'.1.currentTime).toNat ≤ max r'.1.clock (r'.1.deadline t)
    rw [h1.scheduled t ht]
    unfold TimerState.currentTime
    rw [sub_ofNat hclock.le (by lia)]
    lia

/-! ## operations -/

theorem Armed.timerSet (h : Armed s) {R : Nat → List Nat → Bool} {t : Nat} {delay period : LkTime}
    {callback : Option Nat} {arg : Nat} (he : timerSet R s t delay period callback arg = some s') : Armed s' := by
  obtain ⟨ht, s₀, hclock, hq, hdl, hhw, -, -, -, -, rfl⟩ := timerSet_eq he
  have hs := schedule_scheduled R s₀ t delay
  generalize schedule R s₀ t delay = s₁ at hs
  split
  · rename_i hh
    intro u hu
    have hu' : s₁.timerQueue.head? = some u := hu
    rw [hh] at hu'
    cases hu'
    refine ⟨_, rfl, ?_⟩
    show s₁.clock + delay.toNat ≤ max s₁.clock (s₁.deadline t)
    rw [hs.self, hs.clock]
    exact le_max_right _ _
  · rename_i hh
    intro u hu
    rw [hs.head hh, hq] at hu
    obtain ⟨x, hx, hle⟩ := h u hu
    have hut : u ≠ t := fun hut => ht (hut ▸ List.mem_of_mem_head? hu)
    rw [hs.hw, hhw, hs.clock, hclock, hs.other u hut, hdl]
    exact ⟨x, hx, hle⟩

theorem Armed.timerCancel (h : Armed s) (hc : Core s noTimer) (t : Nat) : Armed (timerCancel s t) := by
  intro u hu
  have hcan := (hc.timerCancel t).core
  obtain ⟨hclock, hq, hdl, -, -, -, -⟩ := timerCancel_eq s t
  have hmem : u ∈ (TimerQueue.timerCancel s t).timerQueue := List.mem_of_mem_head? hu
  have hwin := hcan.range _ (.tail _ (List.mem_map_of_mem hmem)) _ (.head _)
  have hsched := hcan.scheduled u hmem
  have hlt := lt_ofNat hcan.range (.tail _ (List.mem_map_of_mem hmem)) (.head _)
  rw [hclock, hdl] at hwin hlt ⊢
  rw [hdl] at hsched
  rw [hq] at hu
  unfold TimerQueue.timerCancel at hsched ⊢
  dsimp only at hsched ⊢
  rw [hu] at hsched ⊢
  dsimp only at hsched ⊢
  split
  · rename_i hne
    refine ⟨_, rfl, ?_⟩
    rw [if_pos hne] at hsched
    have hsched' : (Function.update s.timer t { s.timer t with periodicTime := 0, callback := none, arg := 0 } u).scheduledTime
        = BitVec.ofNat 32 (s.deadline u) := hsched
    rw [hsched']
    unfold TimerState.currentTime
    split
    · exact le_max_left _ _
    · rename_i hx
      have hle := Nat.not_lt.mp fun hy => hx (hlt.mpr hy)
      rw [sub_ofNat hle (by lia)]
      show s.clock + (s.deadline u - s.clock) ≤ _
      lia
  · rename_i hne
    exact h u (not_not.mp hne).symm

/-- the invariant after each operation -/
def Inv (s : TimerState) : Prop := s.inRange → Core s noTimer ∧ Armed s

theorem Inv.boot (h : Boot s) : Inv s := by
  intro _
  have hlic : ∀ t, licence s.log t = .idle := by
    intro t
    rw [h.log]
    rfl
  refine ⟨⟨?_, ?_, fun t ht => ?_, ?_, fun t ht => ?_, fun t ht => absurd (hlic t) ht, fun t => ?_, fun t d n hf => ?_,
    ?_⟩, fun t ht => ?_⟩
  · rw [h.timerQueue]
    exact .nil
  · rw [h.timerQueue]
    exact List.nodup_nil
  · rw [h.timerQueue] at ht
    cases ht
  · unfold TimerState.times
    rw [h.timerQueue]
    intro a ha b hb
    rw [List.mem_singleton.mp ha, List.mem_singleton.mp hb]
    omega
  · rw [h.timerQueue] at ht
    cases ht
  · rw [hlic, h.periodicTime]
    exact iff_of_false Licence.noConfusion fun h0 => h0 rfl
  · rw [h.log] at hf
    cases hf
  · rw [h.log]
    trivial
  · rw [h.timerQueue] at ht
    cases ht

/-- the clock goes on -/
theorem Inv.at (h : Inv s) {now : Nat} (hnow : s.clock ≤ now) (hr : (s.at inWindow now).inRange) :
    Core (s.at inWindow now) noTimer ∧ Armed (s.at inWindow now) := by
  obtain ⟨hs, hwin⟩ := TimerState.seen_inRange.mp hr
  obtain ⟨hc, ha⟩ := h hs
  refine ⟨⟨hc.sorted, hc.nodup, hc.scheduled, of_decide_eq_true hwin, hc.queued, hc.listed, hc.periodic, fun t d n hf => ?_, hc.lawful⟩,
    fun t ht => ?_⟩
  · obtain ⟨h1, h2⟩ := hc.past t d n hf
    exact ⟨h1.trans hnow, h2⟩
  · obtain ⟨x, hx, hle⟩ := ha t ht
    exact ⟨x, hx, hle.trans (max_le_max_right _ hnow)⟩

/-- **An operation keeps the invariant.** -/
theorem Inv.step (h : Inv s) {op : Op} (he : step inWindow s op = some s') : Inv s' := by
  intro hr
  unfold TimerQueue.step at he
  split at he
  · cases he
  rename_i hnow
  have hnow := Nat.not_lt.mp hnow
  cases op with
  | act now a =>
    obtain ⟨hc, ha⟩ := h.at hnow (act_inRange he hr)
    refine ⟨(hc.act he hr).core, ?_⟩
    cases a with
    | setOneshot t delay callback arg => exact ha.timerSet he
    | setPeriodic t period callback arg => exact ha.timerSet he
    | cancel t =>
      cases he
      exact ha.timerCancel hc t
  | tick now call =>
    obtain ⟨r, htick, rfl⟩ := Option.map_eq_some_iff.mp he
    exact (h.at hnow (timerTick_inRange htick hr)).1.timerTick htick hr

/-- **The timer queue.** -/
theorem timer_queue (hr : (timers inWindow).Reach s) (hin : s.inRange) : Good s ∧ Armed s := by
  obtain ⟨h1, h2⟩ := hr.invariant (I := Inv) (fun _ h0 => Inv.boot h0) (fun _ _ _ hi _ hst => hi.step hst) hin
  exact ⟨h1.good, h2⟩

end

/-! ## runs -/

/-- no timer is set -/
def noTimers (clock : Nat) : TimerState where
  clock := clock
  timer _ := ⟨0, 0, none, 0⟩
  timerQueue := []
  hw := none
  deadline _ := 0
  log := []
  inRange := true

theorem noTimers_boot (clock : Nat) : Boot (noTimers clock) := ⟨rfl, fun _ => rfl, rfl, rfl⟩

/-- a callback that does nothing -/
def quiet : Nat → Nat → Nat → Nat → Call := fun _ _ _ _ => ⟨[], false⟩

/-- Across the wrap: the callback of the periodic timer 1 cancels timer 2 and sets timer 3; later one cancels its
own. -/
def wrapOps : List Op :=
  [.act (2 ^ 32 - 10) (.setPeriodic 1 3 (some 0) 0), .act (2 ^ 32 - 10) (.setOneshot 2 5 (some 0) 0),
    .tick (2 ^ 32 - 4) fun t _ _ _ => if t = 1 then ⟨[.cancel 2, .setOneshot 3 1 (some 0) 0], true⟩ else ⟨[], false⟩,
    .tick (2 ^ 32 + 2) fun t _ _ _ => if t = 1 then ⟨[.cancel 1], true⟩ else ⟨[.setOneshot 2 7 (some 0) 0], false⟩]

theorem timer_queue_wrap : ∃ s, Machine.exec (step inWindow) (noTimers (2 ^ 32 - 10)) wrapOps = some s ∧
    s.timerQueue = [2] ∧ Good s ∧ Armed s := by
  have hrun : (Machine.exec (step inWindow) (noTimers (2 ^ 32 - 10)) wrapOps).any fun s =>
      decide (s.inRange = true ∧ s.timerQueue = [2]) := by
    decide
  obtain ⟨s, hs, h⟩ := (Option.any_eq_true _ _).mp hrun
  obtain ⟨hin, hq⟩ := of_decide_eq_true h
  have hr : (timers inWindow).Reach (noTimers (2 ^ 32 - 10)) := .init (noTimers_boot _)
  exact ⟨s, hs, hq, timer_queue (hr.exec wrapOps hs) hin⟩

/-- timer 1 is overdue and timer 2 far ahead when timer 3 is set -/
def farOps : List Op :=
  [.act 0 (.setOneshot 1 1 (some 0) 0), .act 12 (.setOneshot 2 (BitVec.ofNat 32 (2 ^ 31 - 1)) (some 0) 0),
    .act 13 (.setOneshot 3 1 (some 0) 0), .tick 20 quiet, .act 20 (.cancel 2), .tick 20 quiet]

/-- the head is cancelled when both timers are overdue -/
def lateOps : List Op :=
  [.act 0 (.setOneshot 1 1 (some 0) 0), .act 0 (.setOneshot 2 2 (some 0) 0), .act 5 (.cancel 1)]

/-- **Not as it stands.**  With each deadline less than half the range from the clock, timer 1 may run after timer 3,
which was scheduled for later; and an overdue head has the hardware timer armed for now. -/
theorem timer_queue_fails : (¬ ∀ s, (timers near).Reach s → s.inRange → Good s) ∧
    ¬ ∀ s, (timers inWindow).Reach s → s.inRange → ArmedInTime s := by
  constructor
  · intro h
    have hrun : (Machine.exec (step near) (noTimers 0) farOps).any fun s => decide (s.inRange = true ∧
        s.log = [.fire 1 1 20, .cancel 2, .fire 3 14 20, .set 3 false, .set 2 false, .set 1 false]) := by
      decide
    obtain ⟨s, hs, h1⟩ := (Option.any_eq_true _ _).mp hrun
    obtain ⟨hin, hlog⟩ := of_decide_eq_true h1
    have hr : (timers near).Reach (noTimers 0) := .init (noTimers_boot 0)
    have hle := (h s (hr.exec farOps hs) hin).order [] _ 1 1 20 hlog 3 14 20 (.tail _ (.head _))
    exact absurd hle (by decide)
  · intro h
    have hrun : (Machine.exec (step inWindow) (noTimers 0) lateOps).any fun s => decide (s.inRange = true ∧
        s.timerQueue = [2] ∧ s.hw = some 5 ∧ s.deadline 2 = 2) := by
      decide
    obtain ⟨s, hs, h1⟩ := (Option.any_eq_true _ _).mp hrun
    obtain ⟨hin, hq, hhw, hd⟩ := of_decide_eq_true h1
    have hr : (timers inWindow).Reach (noTimers 0) := .init (noTimers_boot 0)
    obtain ⟨x, hx, hle⟩ := h s (hr.exec lateOps hs) hin 2 (by rw [hq]; rfl)
    rw [hhw] at hx
    cases hx
    rw [hd] at hle
    exact absurd hle (by decide)

end LkHv.TimerQueue
