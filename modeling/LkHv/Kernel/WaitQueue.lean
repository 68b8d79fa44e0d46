import Mathlib.Algebra.Order.Group.Nat
import Mathlib.Data.List.Nodup
import Mathlib.Data.List.Perm.Basic

/-!
# Wait queues (`kernel/thread.c`)

A wait queue with the threads that wait on it, those that were woken and have not run since, and the timers
of the timed waits.  `timer_tick` takes a timer off its queue before the handler asks for `thread_lock`, so
a handler may still be on its way when its thread has been woken, has run, and waits again.

* `block`, `wakeOne`, `wakeAll`, `timerTick`, `timeoutHandler`, `resume`   the source's, cut where
  `thread_lock` is;
* `blocked`, `granted`, `expired`   how many threads wait, were woken by a call, were woken by a timer;
* `grantedTo`                       the threads woken by a call;
* `Wf`                              no thread is there twice.
-/

namespace LkHv

/-- `INFINITE_TIME` -/
def INFINITE_TIME : Nat := 2 ^ 32 - 1

/-- what `wait_queue_block` returns -/
inductive WaitRet
  /-- `NO_ERROR` -/
  | noError
  /-- `ERR_TIMED_OUT` -/
  | timedOut
deriving DecidableEq

/-- a thread in `wait_queue_block`, and whether it set a timer -/
structure Waiter where
  thread : Nat
  timed : Bool
deriving DecidableEq

/-- `wait_queue_t`, and what the threads that use it carry -/
structure WaitQueue where
  list : List Waiter
  /-- made `THREAD_READY` with this return value, not yet back from `thread_resched` -/
  woken : List (Waiter × WaitRet)
  /-- the timer on the stack of the thread's timed wait is on a timer queue -/
  timer : Nat → Bool
  /-- handlers for the thread that wait for `thread_lock` -/
  late : Nat → Nat

/-- the first element that meets `p`, and the others -/
def takeFirst {α : Type} (p : α → Bool) : List α → Option (α × List α)
  | [] => none
  | a :: l => if p a then some (a, l) else (takeFirst p l).map fun r => (r.1, a :: r.2)

theorem takeFirst_perm {α : Type} {p : α → Bool} {a : α} {l r : List α} (h : takeFirst p l = some (a, r)) :
    l.Perm (a :: r) ∧ p a = true := by
  induction l generalizing r with
  | nil => cases h
  | cons b l ih =>
    rw [takeFirst] at h
    split at h
    · rename_i hb
      cases h
      exact ⟨List.Perm.refl _, hb⟩
    · obtain ⟨r', hr', e⟩ := Option.map_eq_some_iff.mp h
      cases e
      obtain ⟨h1, h2⟩ := ih hr'
      exact ⟨(h1.cons b).trans (List.Perm.swap _ _ _), h2⟩

theorem takeFirst_none {α : Type} {p : α → Bool} {l : List α} (h : takeFirst p l = none) : ∀ a ∈ l, p a = false := by
  induction l with
  | nil => exact fun a ha => by cases ha
  | cons b l ih =>
    rw [takeFirst] at h
    split at h
    · cases h
    · rename_i hb
      intro a ha
      rcases List.mem_cons.mp ha with rfl | ha
      · simpa using hb
      · exact ih (Option.map_eq_none_iff.mp h) a ha

namespace WaitQueue

def init : WaitQueue := ⟨[], [], fun _ => false, fun _ => 0⟩

/-- the threads that are in `wait_queue_block` -/
def threads (q : WaitQueue) : List Nat := q.list.map Waiter.thread ++ q.woken.map fun w => w.1.thread

/-- `wait_queue_block` up to `thread_resched`, for a timeout that is not 0 -/
def block (q : WaitQueue) (t timeout : Nat) : WaitQueue :=
  let timed := decide (timeout ≠ INFINITE_TIME)
  { q with list := q.list ++ [⟨t, timed⟩]
           timer := if timed then Function.update q.timer t true else q.timer }

/-- `wait_queue_wake_one` with `NO_ERROR` -/
def wakeOne (q : WaitQueue) : WaitQueue :=
  match q.list with
  | [] => q
  | w :: l => { q with list := l, woken := (w, .noError) :: q.woken }

/-- `wait_queue_wake_all` with `NO_ERROR` -/
def wakeAll (q : WaitQueue) : WaitQueue :=
  { q with list := [], woken := (q.list.map fun w => (w, WaitRet.noError)).reverse ++ q.woken }

/-- `timer_tick` takes the thread's timer off its queue and calls the handler -/
def timerTick (q : WaitQueue) (t : Nat) : Option WaitQueue :=
  if q.timer t then
    some { q with timer := Function.update q.timer t false
                  late := Function.update q.late t (q.late t + 1) }
  else none

/-- a timed wait of the thread on another queue is over, with its handler still on its way -/
def elsewhere (q : WaitQueue) (t : Nat) : WaitQueue := { q with late := Function.update q.late t (q.late t + 1) }

/-- `thread_unblock_from_wait_queue` with `ERR_TIMED_OUT` -/
def unblock (q : WaitQueue) (t : Nat) : WaitQueue :=
  match takeFirst (fun w => w.thread = t) q.list with
  | none => q
  | some (w, l) => { q with list := l, woken := (w, .timedOut) :: q.woken }

/-- `wait_queue_timeout_handler` gets `thread_lock` -/
def timeoutHandler (q : WaitQueue) (t : Nat) : Option WaitQueue :=
  if q.late t = 0 then none
  else some (WaitQueue.unblock { q with late := Function.update q.late t (q.late t - 1) } t)

/-- the rest of `wait_queue_block`: the thread runs again and cancels its timer -/
def resume (q : WaitQueue) (t : Nat) : Option (WaitRet × WaitQueue) :=
  (takeFirst (fun w : Waiter × WaitRet => w.1.thread = t) q.woken).map fun r =>
    (r.1.2, { q with woken := r.2
                     timer := if r.1.1.timed then Function.update q.timer t false else q.timer })

/-! ## counts -/

def blocked (q : WaitQueue) : Nat := q.list.length

/-- threads woken by `wait_queue_wake_one` that have not run since -/
def granted (q : WaitQueue) : Nat := q.woken.countP fun w => w.2 = .noError

/-- threads woken by a timer that have not run since -/
def expired (q : WaitQueue) : Nat := q.woken.countP fun w => w.2 = .timedOut

def grantedTo (q : WaitQueue) : List Nat := (q.woken.filter fun w => w.2 = .noError).map fun w => w.1.thread

theorem woken_length (q : WaitQueue) : q.woken.length = q.granted + q.expired := by
  unfold granted expired
  rw [List.length_eq_countP_add_countP fun w : Waiter × WaitRet => w.2 = .noError]
  congr 1
  refine List.countP_congr fun w _ => ?_
  cases w.2 <;> simp

section
variable {q q' : WaitQueue} {t : Nat}

theorem woken_eq_nil (h : q.woken = []) : q.granted = 0 ∧ q.expired = 0 := by
  unfold granted expired
  rw [h]
  exact ⟨rfl, rfl⟩

theorem blocked_block (timeout : Nat) : (q.block t timeout).blocked = q.blocked + 1 := by
  unfold block blocked
  simp

@[simp] theorem granted_block (timeout : Nat) : (q.block t timeout).granted = q.granted := rfl
@[simp] theorem expired_block (timeout : Nat) : (q.block t timeout).expired = q.expired := rfl

theorem wakeOne_nil (h : q.list = []) : q.wakeOne = q := by
  unfold wakeOne
  rw [h]

/-- a waiter is handed what it waits for -/
theorem wakeOne_counts (h : q.list ≠ []) :
    q.wakeOne.blocked + 1 = q.blocked ∧ q.wakeOne.granted = q.granted + 1 ∧ q.wakeOne.expired = q.expired := by
  unfold wakeOne blocked granted expired
  cases hl : q.list with
  | nil => exact absurd hl h
  | cons w l => simp

theorem grantedTo_wakeOne {w : Waiter} {l : List Waiter} (h : q.list = w :: l) :
    q.wakeOne.list = l ∧ q.wakeOne.woken = (w, .noError) :: q.woken ∧
      q.wakeOne.grantedTo = w.thread :: q.grantedTo := by
  unfold wakeOne grantedTo
  rw [h]
  exact ⟨rfl, rfl, rfl⟩

theorem timerTick_eq (h : q.timerTick t = some q') : q'.list = q.list ∧ q'.woken = q.woken := by
  unfold timerTick at h
  split at h
  · cases h
    exact ⟨rfl, rfl⟩
  · cases h

/-- the handler finds its thread blocked or does nothing -/
theorem timeoutHandler_cases (h : q.timeoutHandler t = some q') :
    (q'.list = q.list ∧ q'.woken = q.woken ∧ ∀ w ∈ q.list, w.thread ≠ t) ∨
      ∃ w, q.list.Perm (w :: q'.list) ∧ w.thread = t ∧ q'.woken = (w, .timedOut) :: q.woken := by
  unfold timeoutHandler at h
  split at h
  · cases h
  · cases h
    unfold unblock
    dsimp only
    cases hf : takeFirst (fun w : Waiter => decide (w.thread = t)) q.list with
    | none => exact .inl ⟨rfl, rfl, fun w hw => by simpa using takeFirst_none hf w hw⟩
    | some r =>
      obtain ⟨w, l⟩ := r
      obtain ⟨h1, h2⟩ := takeFirst_perm hf
      exact .inr ⟨w, h1, by simpa using h2, rfl⟩

theorem timeoutHandler_counts {w : Waiter} (hl : q.list.Perm (w :: q'.list))
    (hw : q'.woken = (w, .timedOut) :: q.woken) :
    q'.blocked + 1 = q.blocked ∧ q'.granted = q.granted ∧ q'.expired = q.expired + 1 := by
  unfold blocked granted expired
  rw [hw, hl.length_eq]
  simp

theorem resume_some {ret : WaitRet} (h : q.resume t = some (ret, q')) :
    q'.list = q.list ∧ ∃ w : Waiter, q.woken.Perm ((w, ret) :: q'.woken) ∧ w.thread = t := by
  obtain ⟨⟨⟨w, ret'⟩, l⟩, hf, e⟩ := Option.map_eq_some_iff.mp h
  cases e
  obtain ⟨h1, h2⟩ := takeFirst_perm hf
  exact ⟨rfl, w, h1, by simpa using h2⟩

theorem grantedTo_timeoutHandler (h : q.timeoutHandler t = some q') : q'.grantedTo = q.grantedTo := by
  unfold grantedTo
  rcases timeoutHandler_cases h with ⟨-, hw, -⟩ | ⟨w, -, -, hw⟩
  · rw [hw]
  · rw [hw]
    rfl

theorem grantedTo_resume {ret : WaitRet} (h : q.resume t = some (ret, q')) :
    q.grantedTo.Perm ((if ret = .noError then [t] else []) ++ q'.grantedTo) := by
  obtain ⟨-, w, hp, rfl⟩ := resume_some h
  unfold grantedTo
  refine ((hp.filter _).map _).trans ?_
  cases ret <;> exact List.Perm.refl _

theorem resume_counts {ret : WaitRet} (h : q.resume t = some (ret, q')) :
    q'.blocked = q.blocked ∧ q.granted = q'.granted + (if ret = .noError then 1 else 0) ∧
      q.expired = q'.expired + (if ret = .timedOut then 1 else 0) := by
  obtain ⟨hl, w, hp, -⟩ := resume_some h
  unfold blocked granted expired
  rw [hl, hp.countP_eq, hp.countP_eq, List.countP_cons, List.countP_cons]
  simp

/-! ## one place for each thread -/

/-- no thread is in `wait_queue_block` twice -/
def Wf (q : WaitQueue) : Prop := q.threads.Nodup

theorem Wf.init : Wf init := List.nodup_nil

theorem mem_threads : t ∈ q.threads ↔ (∃ w ∈ q.list, w.thread = t) ∨ ∃ w ∈ q.woken, w.1.thread = t := by
  simp [threads]

theorem Wf.same (h : q.Wf) (hl : q'.list = q.list) (hw : q'.woken = q.woken) : q'.Wf := by
  unfold Wf threads
  rw [hl, hw]
  exact h

theorem threads_block (timeout : Nat) : (q.block t timeout).threads.Perm (t :: q.threads) := by
  unfold threads block
  simp only [List.map_append, List.map_cons, List.map_nil]
  rw [List.append_assoc]
  exact List.perm_middle

theorem Wf.block (h : q.Wf) (ht : t ∉ q.threads) (timeout : Nat) : (q.block t timeout).Wf := by
  unfold Wf
  rw [(threads_block timeout).nodup_iff, List.nodup_cons]
  exact ⟨ht, h⟩

/-- a waiter moved to the threads that were woken -/
theorem threads_wake {w : Waiter} {ret : WaitRet} (hl : q.list.Perm (w :: q'.list))
    (hw : q'.woken = (w, ret) :: q.woken) : q'.threads.Perm q.threads := by
  unfold threads
  rw [hw, List.map_cons]
  refine List.perm_middle.trans ?_
  have := (hl.map Waiter.thread).append_right (q.woken.map fun w => w.1.thread)
  exact this.symm

theorem threads_wakeOne : q.wakeOne.threads.Perm q.threads := by
  cases hl : q.list with
  | nil => rw [wakeOne_nil hl]
  | cons w l =>
    unfold wakeOne
    rw [hl]
    exact threads_wake (by rw [hl]) rfl

theorem threads_wakeAll : q.wakeAll.threads.Perm q.threads := by
  unfold wakeAll threads
  simp only [List.map_nil, List.nil_append, List.map_append, List.map_reverse, List.map_map]
  exact List.Perm.append_right _ (List.reverse_perm _)

theorem threads_timeoutHandler (h : q.timeoutHandler t = some q') : q'.threads.Perm q.threads := by
  rcases timeoutHandler_cases h with ⟨hl, hw, -⟩ | ⟨w, hl, -, hw⟩
  · unfold threads
    rw [hl, hw]
  · exact threads_wake hl hw

theorem threads_resume {ret : WaitRet} (h : q.resume t = some (ret, q')) : q.threads.Perm (t :: q'.threads) := by
  obtain ⟨hl, w, hp, rfl⟩ := resume_some h
  unfold threads
  rw [hl]
  refine ((hp.map fun w => w.1.thread).append_left _).trans ?_
  rw [List.map_cons]
  exact List.perm_middle

theorem Wf.perm (h : q.Wf) (hp : q'.threads.Perm q.threads) : q'.Wf := hp.nodup_iff.mpr h

theorem Wf.resume {ret : WaitRet} (h : q.Wf) (hr : q.resume t = some (ret, q')) : q'.Wf ∧ t ∉ q'.threads := by
  have := (threads_resume hr).nodup_iff.mp h
  rw [List.nodup_cons] at this
  exact ⟨this.2, this.1⟩

end
end WaitQueue
end LkHv
