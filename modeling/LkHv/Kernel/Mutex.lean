import Mathlib.Algebra.Order.Group.Int
import LkHv.Lib.Machine
import LkHv.Kernel.WaitQueue

/-!
# Mutexes (`kernel/mutex.c`)

`count` is the number of threads that have the mutex or are in `mutex_acquire_timeout`, and a call that is
not the first one in waits.  A thread that timed out is still counted until it runs, so the mutex may be
free when a call finds `count` above zero.

* `mutexAcquireTimeout`, `mutexRelease`, `mutexResume`   the source's, cut where `thread_lock` is;
* `mutexSys`           the mutex under any calls, timers and schedule;
* `MutexSafe`          one holder, `count` is exact, no thread waits for a mutex that nobody has or will take;
* `MutexGuard`         the guard;
* `mutex_safe`         in runs under the guard every state is `MutexSafe`;
* `mutex_safe_fails`   not so if a thread waits while the mutex is free and another has timed out.
-/

namespace LkHv

/-- `mutex_t`; `held` are the threads whose call returned `NO_ERROR` and that have not released it -/
structure Mutex where
  holder : Option Nat
  count : Int
  wait : WaitQueue
  held : List Nat

namespace Mutex

def mutexInit : Mutex := ⟨none, 0, .init, []⟩

/-- `m->holder = get_current_thread()`, and the call returns -/
def take (m : Mutex) (t : Nat) : Mutex := { m with holder := some t, held := t :: m.held }

/-- `none`: the thread has the mutex already (`panic`) -/
def mutexAcquireTimeout (m : Mutex) (t timeout : Nat) : Option Mutex :=
  if m.holder = some t then none
  else
    let m := { m with count := m.count + 1 }
    if m.count > 1 then
      -- `wait_queue_block` returns `ERR_TIMED_OUT` at once
      if timeout = 0 then some { m with count := m.count - 1 }
      else some { m with wait := m.wait.block t timeout }
    else some (m.take t)

/-- the rest of `mutex_acquire_timeout` after `thread_resched` -/
def mutexResume (m : Mutex) (t : Nat) : Option Mutex :=
  (m.wait.resume t).map fun r =>
    let m := { m with wait := r.2 }
    match r.1 with
    | .noError => m.take t
    | .timedOut => { m with count := m.count - 1 }

/-- `none`: the thread does not have the mutex (`panic`) -/
def mutexRelease (m : Mutex) (t : Nat) : Option Mutex :=
  if m.holder ≠ some t then none
  else
    let m := { m with holder := none, held := m.held.erase t, count := m.count - 1 }
    some (if m.count ≥ 1 then { m with wait := m.wait.wakeOne } else m)

inductive MutexOp
  | acquire (t timeout : Nat)
  | release (t : Nat)
  | resume (t : Nat)
  | timerTick (t : Nat)
  | timeoutHandler (t : Nat)
  | elsewhere (t : Nat)

/-- a thread calls when it is not waiting already -/
def mutexStep (m : Mutex) : MutexOp → Option Mutex
  | .acquire t timeout => if t ∈ m.wait.threads then none else m.mutexAcquireTimeout t timeout
  | .release t => if t ∈ m.wait.threads then none else m.mutexRelease t
  | .resume t => m.mutexResume t
  | .timerTick t => (m.wait.timerTick t).map fun w => { m with wait := w }
  | .timeoutHandler t => (m.wait.timeoutHandler t).map fun w => { m with wait := w }
  | .elsewhere t => if t ∈ m.wait.threads then none else some { m with wait := m.wait.elsewhere t }

def mutexSys : Machine Mutex MutexOp := .ofFun (· = mutexInit) mutexStep

/-- the threads that have the mutex or try to get it -/
def trying (m : Mutex) : List Nat := m.held ++ m.wait.threads

/-- a thread was woken to take the mutex -/
def Handed (m : Mutex) : Prop := ∃ w ∈ m.wait.woken, w.2 = .noError

instance (m : Mutex) : Decidable m.Handed := inferInstanceAs (Decidable (∃ _ ∈ _, _))

/-- At most one thread has the mutex, and it is the holder; `count` is the number of threads that have it or
try to; a thread waits only if there is a holder or a thread woken to be it. -/
structure MutexSafe (m : Mutex) : Prop where
  one : m.held = m.holder.toList
  count : m.count = m.trying.length
  distinct : m.trying.Nodup
  served : m.holder = none → ¬ m.Handed → m.wait.list = []

/-- the guard, on the state before a step: a call that waits finds the mutex taken, or about to be -/
def MutexGuard (m : Mutex) : MutexOp → Prop
  | .acquire _ timeout => timeout ≠ 0 → 0 < m.count → m.holder ≠ none ∨ m.Handed
  | _ => True

instance (m : Mutex) (op : MutexOp) : Decidable (MutexGuard m op) := by
  cases op <;> unfold MutexGuard <;> infer_instance

/-! ## the invariant -/

structure MutexInv (m : Mutex) : Prop where
  one : m.held = m.holder.toList
  count : m.count = m.trying.length
  distinct : m.trying.Nodup
  /-- the mutex goes to one thread at a time -/
  owner : m.held.length + m.wait.granted ≤ 1
  served : m.wait.list ≠ [] → m.held.length + m.wait.granted = 1

section
variable {m m' : Mutex} {t : Nat}

theorem handed_iff : m.Handed ↔ m.wait.granted ≠ 0 := by
  unfold Handed WaitQueue.granted
  rw [← Nat.pos_iff_ne_zero, List.countP_pos_iff]
  simp

theorem MutexInv.safe (h : MutexInv m) : MutexSafe m where
  one := h.one
  count := h.count
  distinct := h.distinct
  served hh hn := by
    by_contra hl
    have h1 := h.served hl
    have h2 : m.wait.granted = 0 := by
      by_contra hne
      exact hn (handed_iff.mpr hne)
    rw [h2, h.one, hh] at h1
    cases h1

theorem MutexInv.init : MutexInv mutexInit := ⟨rfl, rfl, List.nodup_nil, Nat.zero_le _, fun h => absurd rfl h⟩

theorem trying_length : m.trying.length = m.held.length + m.wait.threads.length := List.length_append

theorem threads_length (q : WaitQueue) : q.threads.length = q.blocked + q.granted + q.expired := by
  unfold WaitQueue.threads WaitQueue.blocked
  rw [List.length_append, List.length_map, List.length_map, q.woken_length]
  omega

/-- a thread that gets the mutex; it was counted as trying to -/
theorem MutexInv.take {q : WaitQueue} (h : MutexInv m) (hh : m.holder = none) {c : Int}
    (ht : m.trying.Perm (t :: q.threads) ∨ m.trying = q.threads ∧ t ∉ q.threads)
    (hc : c = 1 + q.threads.length) (hg : q.granted = 0) :
    MutexInv (Mutex.take { m with wait := q, count := c } t) := by
  have hheld : m.held = [] := by rw [h.one, hh]; rfl
  have htry : (Mutex.take { m with wait := q, count := c } t).trying = t :: q.threads := by
    show (t :: m.held) ++ q.threads = _
    rw [hheld]
    rfl
  have hdist := h.distinct
  refine ⟨?_, ?_, ?_, ?_, fun _ => ?_⟩
  · show t :: m.held = _
    rw [hheld]
    rfl
  · rw [htry, List.length_cons]
    show c = _
    omega
  · rw [htry]
    rcases ht with hp | ⟨e, hn⟩
    · exact hp.nodup_iff.mp hdist
    · rw [List.nodup_cons]
      exact ⟨hn, e ▸ hdist⟩
  · show (t :: m.held).length + q.granted ≤ 1
    rw [hheld, hg]
    exact Nat.le_refl 1
  · show (t :: m.held).length + q.granted = 1
    rw [hheld, hg]
    rfl

theorem MutexInv.acquire (h : MutexInv m) {timeout : Nat} (ht : t ∉ m.wait.threads)
    (hg : timeout ≠ 0 → 0 < m.count → m.holder ≠ none ∨ m.Handed)
    (hs : m.mutexAcquireTimeout t timeout = some m') : MutexInv m' := by
  unfold mutexAcquireTimeout at hs
  split at hs
  · cases hs
  rename_i hne
  have hheld : t ∉ m.held := by
    rw [h.one]
    intro hm
    exact hne (Option.mem_toList.mp hm)
  have hc := h.count
  rw [trying_length, threads_length] at hc
  dsimp only at hs
  split at hs
  · rename_i hgt
    split at hs
    · cases hs
      rw [Int.add_sub_cancel]
      exact h
    · rename_i hto
      cases hs
      have htr : Mutex.trying { m with count := m.count + 1, wait := m.wait.block t timeout } =
          m.held ++ (m.wait.block t timeout).threads := rfl
      have hp : (m.held ++ (m.wait.block t timeout).threads).Perm (t :: m.trying) :=
        ((WaitQueue.threads_block timeout).append_left m.held).trans List.perm_middle
      refine ⟨h.one, ?_, ?_, ?_, fun _ => ?_⟩
      · rw [htr, hp.length_eq, List.length_cons]
        show m.count + 1 = _
        rw [h.count]
        omega
      · rw [htr, hp.nodup_iff, List.nodup_cons]
        refine ⟨fun hm => ?_, h.distinct⟩
        rcases List.mem_append.mp hm with hm | hm
        · exact hheld hm
        · exact ht hm
      · exact h.owner
      · show m.held.length + m.wait.granted = 1
        have ho := h.owner
        rcases hg hto (by omega) with hh | hh
        · rw [h.one]
          obtain ⟨u, hu⟩ := Option.ne_none_iff_exists'.mp hh
          rw [h.one, hu] at ho
          rw [hu]
          exact Nat.le_antisymm ho (Nat.le_add_right 1 _)
        · have := handed_iff.mp hh
          omega
  · rename_i hle
    cases hs
    -- nobody is counted
    have hholder : m.holder = none := by
      by_contra hh
      obtain ⟨u, hu⟩ := Option.ne_none_iff_exists'.mp hh
      have : m.held.length = 1 := by rw [h.one, hu]; rfl
      omega
    have hnil : m.held = [] := by rw [h.one, hholder]; rfl
    refine h.take (q := m.wait) (c := m.count + 1) hholder (.inr ⟨?_, ht⟩) ?_ (by omega)
    · show m.held ++ m.wait.threads = _
      rw [hnil]
      rfl
    · rw [threads_length]
      omega

theorem MutexInv.release (h : MutexInv m) (hs : m.mutexRelease t = some m') : MutexInv m' := by
  unfold mutexRelease at hs
  split at hs
  · cases hs
  rename_i hh
  have hholder : m.holder = some t := not_not.mp hh
  have hheld : m.held = [t] := by rw [h.one, hholder]; rfl
  have herase : m.held.erase t = [] := by
    rw [hheld]
    simp
  have hc := h.count
  have ho := h.owner
  have hd := h.distinct
  unfold trying at hd
  rw [trying_length, threads_length, hheld] at hc
  rw [hheld] at ho hd
  simp only [List.length_cons, List.length_nil] at hc ho
  have hwf : m.wait.Wf := (List.nodup_cons.mp hd).2
  cases hs
  rw [herase]
  dsimp only
  split
  · by_cases hl : m.wait.list = []
    · -- those that are counted have timed out
      rw [WaitQueue.wakeOne_nil hl]
      refine ⟨rfl, ?_, hwf, ?_, fun hl' => absurd hl hl'⟩
      · rw [trying_length, threads_length]
        dsimp only
        rw [List.length_nil]
        lia
      · dsimp only
        rw [List.length_nil]
        lia
    · obtain ⟨h1, h2, h3⟩ := WaitQueue.wakeOne_counts hl
      refine ⟨rfl, ?_, hwf.perm WaitQueue.threads_wakeOne, ?_, fun _ => ?_⟩
      · rw [trying_length, threads_length]
        dsimp only
        rw [List.length_nil]
        lia
      · dsimp only
        rw [List.length_nil]
        lia
      · dsimp only
        rw [List.length_nil]
        lia
  · rename_i hlt
    refine ⟨rfl, ?_, hwf, ?_, fun hl => ?_⟩
    · rw [trying_length, threads_length]
      dsimp only
      rw [List.length_nil]
      lia
    · dsimp only
      rw [List.length_nil]
      lia
    · have hb : m.wait.blocked ≠ 0 := fun e => hl (List.length_eq_zero_iff.mp e)
      lia

theorem MutexInv.resume (h : MutexInv m) (hs : m.mutexResume t = some m') : MutexInv m' := by
  obtain ⟨⟨ret, q⟩, hr, rfl⟩ := Option.map_eq_some_iff.mp hs
  obtain ⟨h1, h2, h3⟩ := WaitQueue.resume_counts hr
  have hl := (WaitQueue.resume_some hr).1
  have hp : m.trying.Perm (t :: (m.held ++ q.threads)) :=
    ((WaitQueue.threads_resume hr).append_left m.held).trans List.perm_middle
  have hc := h.count
  have ho := h.owner
  have hd := hp.nodup_iff.mp h.distinct
  rw [hp.length_eq, List.length_cons, List.length_append] at hc
  cases ret with
  | noError =>
    simp only [if_true, if_false, reduceCtorEq] at h2 h3
    have hheld : m.held = [] := List.length_eq_zero_iff.mp (by lia)
    have hholder : m.holder = none := by
      have := h.one
      rw [hheld] at this
      cases hh : m.holder with
      | none => rfl
      | some u =>
        rw [hh] at this
        cases this
    refine h.take (q := q) (c := m.count) hholder (.inl ?_) ?_ (by lia)
    · rw [hheld] at hp
      exact hp
    · rw [hheld, List.length_nil] at hc
      lia
  | timedOut =>
    simp only [if_true, if_false, reduceCtorEq] at h2 h3
    refine ⟨h.one, ?_, (List.nodup_cons.mp hd).2, ?_, fun hne => ?_⟩
    · rw [trying_length]
      dsimp only
      lia
    · dsimp only
      lia
    · have := h.served (by rwa [← hl])
      dsimp only
      lia

/-- steps of the timers that leave the threads where they are -/
theorem MutexInv.same (h : MutexInv m) {q : WaitQueue} (hl : q.list = m.wait.list)
    (hw : q.woken = m.wait.woken) : MutexInv { m with wait := q } := by
  have ht : q.threads = m.wait.threads := by
    unfold WaitQueue.threads
    rw [hl, hw]
  have hgr : q.granted = m.wait.granted := by
    unfold WaitQueue.granted
    rw [hw]
  refine ⟨h.one, ?_, ?_, ?_, fun hne => ?_⟩
  · rw [trying_length]
    dsimp only
    rw [ht, ← trying_length]
    exact h.count
  · show (m.held ++ q.threads).Nodup
    rw [ht]
    exact h.distinct
  · dsimp only
    rw [hgr]
    exact h.owner
  · dsimp only
    rw [hgr]
    exact h.served (by rwa [← hl])

theorem MutexInv.timeoutHandler (h : MutexInv m) {q : WaitQueue} (hq : m.wait.timeoutHandler t = some q) :
    MutexInv { m with wait := q } := by
  have hp := WaitQueue.threads_timeoutHandler hq
  rcases WaitQueue.timeoutHandler_cases hq with ⟨hl, hw, -⟩ | ⟨w, hl, -, hw⟩
  · exact h.same hl hw
  · obtain ⟨h1, h2, h3⟩ := WaitQueue.timeoutHandler_counts hl hw
    have hne : m.wait.list ≠ [] := by
      intro e
      rw [e] at hl
      exact absurd hl.symm.eq_nil (List.cons_ne_nil _ _)
    refine ⟨h.one, ?_, ?_, ?_, fun _ => ?_⟩
    · rw [trying_length]
      dsimp only
      rw [hp.length_eq, ← trying_length]
      exact h.count
    · show (m.held ++ q.threads).Nodup
      rw [(hp.append_left m.held).nodup_iff]
      exact h.distinct
    · dsimp only
      rw [h2]
      exact h.owner
    · dsimp only
      rw [h2]
      exact h.served hne

theorem MutexInv.step (h : MutexInv m) {op : MutexOp} (hg : MutexGuard m op) (hs : mutexStep m op = some m') :
    MutexInv m' := by
  cases op with
  | acquire t timeout =>
    simp only [mutexStep] at hs
    split at hs
    · cases hs
    · rename_i ht
      exact h.acquire ht hg hs
  | release t =>
    simp only [mutexStep] at hs
    split at hs
    · cases hs
    · exact h.release hs
  | resume t => exact h.resume hs
  | timerTick t =>
    obtain ⟨q, hq, rfl⟩ := Option.map_eq_some_iff.mp hs
    obtain ⟨hl, hw⟩ := WaitQueue.timerTick_eq hq
    exact h.same hl hw
  | timeoutHandler t =>
    obtain ⟨q, hq, rfl⟩ := Option.map_eq_some_iff.mp hs
    exact h.timeoutHandler hq
  | elsewhere t =>
    simp only [mutexStep] at hs
    split at hs
    · cases hs
    · cases hs
      exact h.same rfl rfl

theorem MutexInv.boot (h0 : mutexSys.init m) : MutexInv m := by
  change m = mutexInit at h0
  rw [h0]
  exact .init

/-- **Mutex safety.**  In runs under the guard one thread has the mutex, `count` is exact, and no thread is
left waiting for a mutex that is free. -/
theorem mutex_safe (hr : mutexSys.Run MutexGuard m) : MutexSafe m :=
  (hr.invariant (I := MutexInv) (fun _ h0 => .boot h0) fun _ _ _ h hg hs => h.step hg hs).safe

end

/-- the theorem when thread 2 timed out, the holder released, and thread 3 came after thread 2 had run -/
theorem mutex_safe_timeout : ∃ m,
    Machine.execIf MutexGuard mutexStep mutexInit
      [.acquire 1 INFINITE_TIME, .acquire 2 5, .timerTick 2, .timeoutHandler 2, .release 1, .resume 2,
        .acquire 3 INFINITE_TIME] = some m ∧ m.holder = some 3 ∧ MutexSafe m := by
  have h0 : mutexSys.Run MutexGuard mutexInit := .init rfl
  obtain ⟨m, hs, hm⟩ := (Option.any_eq_true _ _).mp (show (Machine.execIf MutexGuard mutexStep mutexInit
    [.acquire 1 INFINITE_TIME, .acquire 2 5, .timerTick 2, .timeoutHandler 2, .release 1, .resume 2,
      .acquire 3 INFINITE_TIME]).any (fun m => m.holder = some 3) by decide)
  exact ⟨m, hs, by simpa using hm, mutex_safe (h0.execIf _ hs)⟩

/-- **A mutex nobody has.**  Thread 2 timed out and has not run when the holder releases and thread 3 asks:
thread 3 waits, nobody has the mutex and nobody was woken to take it, also after thread 2 has run. -/
theorem mutex_safe_fails : ¬ ∀ m, mutexSys.Reach m → MutexSafe m := by
  intro h
  have h0 : mutexSys.Reach mutexInit := .init rfl
  obtain ⟨m, hs, hm⟩ := (Option.any_eq_true _ _).mp (show (Machine.exec mutexStep mutexInit
    [.acquire 1 INFINITE_TIME, .acquire 2 5, .timerTick 2, .timeoutHandler 2, .release 1,
      .acquire 3 INFINITE_TIME, .resume 2]).any
        (fun m => m.holder = none ∧ ¬ m.Handed ∧ m.wait.list ≠ []) by decide)
  obtain ⟨h1, h2, h3⟩ : m.holder = none ∧ ¬ m.Handed ∧ m.wait.list ≠ [] := by simpa using hm
  exact h3 ((h m (h0.exec _ hs)).served h1 h2)

end Mutex
end LkHv
