import LkHv.Lib.Machine
import LkHv.Kernel.WaitQueue
import LkHv.Kernel.Word

/-!
# Semaphores (`kernel/semaphore.c`)

`count` goes below zero for the threads that wait, and a wait that timed out takes its unit back only when
its thread runs again.  In between `count` says that a thread waits that does not.

* `semInit`, `semPost`, `semWait`, `semTrywait`, `semTimedwait`, `semResume`   the source's, cut where
  `thread_lock` is;
* `semSys`               the semaphore under any calls, timers and schedule;
* `SemConserved`         no permit is made up or lost, and none is left over while a thread waits;
* `SemGuard`             the guard;
* `sem_conserved`        in runs under the guard every state is `SemConserved`;
* `sem_conserved_fails`  not so if a thread waits while another has timed out and not run.
-/

namespace LkHv

/-- `semaphore_t`; `posts` and `taken` count the calls of `sem_post` and the waits that returned `NO_ERROR` -/
structure Semaphore where
  count : Int
  wait : WaitQueue
  /-- the thread waits in `sem_timedwait` -/
  inTimedwait : Nat → Bool
  posts : Nat
  taken : Nat

namespace Semaphore

def semInit (value : Nat) : Semaphore := ⟨wrap32 value, .init, fun _ => false, 0, 0⟩

def semPost (s : Semaphore) : Semaphore :=
  let s := { s with count := wrap32 (s.count + 1), posts := s.posts + 1 }
  if s.count ≤ 0 then { s with wait := s.wait.wakeOne } else s

def semWait (s : Semaphore) (t : Nat) : Semaphore :=
  let s := { s with count := wrap32 (s.count - 1), inTimedwait := Function.update s.inTimedwait t false }
  if s.count < 0 then { s with wait := s.wait.block t INFINITE_TIME } else { s with taken := s.taken + 1 }

def semTrywait (s : Semaphore) : Semaphore :=
  if s.count ≤ 0 then s else { s with count := wrap32 (s.count - 1), taken := s.taken + 1 }

def semTimedwait (s : Semaphore) (t timeout : Nat) : Semaphore :=
  let s := { s with count := wrap32 (s.count - 1), inTimedwait := Function.update s.inTimedwait t true }
  if s.count < 0 then
    -- `wait_queue_block` returns `ERR_TIMED_OUT` at once
    if timeout = 0 then { s with count := wrap32 (s.count + 1) }
    else { s with wait := s.wait.block t timeout }
  else { s with taken := s.taken + 1 }

/-- the rest of `sem_wait` and `sem_timedwait` after `thread_resched` -/
def semResume (s : Semaphore) (t : Nat) : Option Semaphore :=
  (s.wait.resume t).map fun r =>
    let s := { s with wait := r.2 }
    match r.1 with
    | .noError => { s with taken := s.taken + 1 }
    | .timedOut => if s.inTimedwait t then { s with count := wrap32 (s.count + 1) } else s

inductive SemOp
  | post
  | wait (t : Nat)
  | trywait
  | timedwait (t timeout : Nat)
  | resume (t : Nat)
  | timerTick (t : Nat)
  | timeoutHandler (t : Nat)
  | elsewhere (t : Nat)

/-- a thread calls when it is not waiting already -/
def semStep (s : Semaphore) : SemOp → Option Semaphore
  | .post => some s.semPost
  | .wait t => if t ∈ s.wait.threads then none else some (s.semWait t)
  | .trywait => some s.semTrywait
  | .timedwait t timeout => if t ∈ s.wait.threads then none else some (s.semTimedwait t timeout)
  | .resume t => s.semResume t
  | .timerTick t => (s.wait.timerTick t).map fun w => { s with wait := w }
  | .timeoutHandler t => (s.wait.timeoutHandler t).map fun w => { s with wait := w }
  | .elsewhere t => if t ∈ s.wait.threads then none else some { s with wait := s.wait.elsewhere t }

def semSys (value : Nat) : Machine Semaphore SemOp := .ofFun (· = semInit value) semStep

/-- the permits not handed out: neither taken nor on their way to a thread that was woken for one -/
def permits (value : Nat) (s : Semaphore) : Int := (value : Int) + s.posts - s.taken - s.wait.granted

/-- No more is taken than was posted; every permit is accounted for, and with no woken thread left to run
`count` is what is left less the threads that wait; no thread waits while there is a permit. -/
structure SemConserved (value : Nat) (s : Semaphore) : Prop where
  taken : s.taken + s.wait.granted ≤ value + s.posts
  count : s.wait.woken = [] → s.count = (value : Int) + s.posts - s.taken - s.wait.blocked
  served : s.wait.list ≠ [] → s.permits value = 0
  once : s.wait.Wf

/-- Where a call blocks there is no permit: with an empty queue `count` may be short of the permits by the
threads that timed out and have not run. -/
def WaitsForPermit (s : Semaphore) : Prop := s.count ≤ 0 → s.wait.list = [] → s.count + s.wait.expired ≤ 0

/-- the guard, on the state before a step -/
def SemGuard (s : Semaphore) : SemOp → Prop
  | .post => s.count < 2 ^ 31 - 1
  | .wait _ => -2 ^ 31 < s.count ∧ s.WaitsForPermit
  | .trywait => True
  | .timedwait _ timeout => -2 ^ 31 < s.count ∧ (timeout ≠ 0 → s.WaitsForPermit)
  | .resume t => (∃ w ∈ s.wait.woken, w.1.thread = t ∧ w.2 = .timedOut) → s.count < 2 ^ 31 - 1
  | .timerTick _ => True
  | .timeoutHandler t => (∃ w ∈ s.wait.list, w.thread = t) → s.inTimedwait t = true
  | .elsewhere _ => True

instance (s : Semaphore) (op : SemOp) : Decidable (SemGuard s op) := by
  cases op <;> unfold SemGuard <;> (try unfold WaitsForPermit) <;> infer_instance

/-! ## the invariant -/

structure SemInv (value : Nat) (s : Semaphore) : Prop where
  wf : s.wait.Wf
  lo : -2 ^ 31 ≤ s.count
  hi : s.count < 2 ^ 31
  count : s.count = s.permits value - s.wait.blocked - s.wait.expired
  permits : 0 ≤ s.permits value
  served : s.wait.list ≠ [] → s.permits value = 0
  timed : ∀ w ∈ s.wait.woken, w.2 = .timedOut → s.inTimedwait w.1.thread = true

section
variable {value : Nat} {s s' : Semaphore}

theorem SemInv.conserved (h : SemInv value s) : SemConserved value s where
  taken := by
    have := h.permits
    unfold Semaphore.permits at this
    lia
  count hw := by
    obtain ⟨h1, h2⟩ := WaitQueue.woken_eq_nil hw
    rw [h.count]
    unfold Semaphore.permits
    lia
  served := h.served
  once := h.wf

theorem SemInv.init (hv : value < 2 ^ 31) : SemInv value (semInit value) := by
  have hc : (semInit value).count = value := by
    unfold semInit
    dsimp only
    exact wrap32_of_range (by lia) (by lia)
  refine ⟨.init, by rw [hc]; lia, by rw [hc]; lia, ?_, ?_, fun h => absurd rfl h, ?_⟩
  · rw [hc]
    show (value : Int) = (value : Int) + (0 : Nat) - (0 : Nat) - (0 : Nat) - (0 : Nat) - (0 : Nat)
    lia
  · show (0 : Int) ≤ (value : Int) + (0 : Nat) - (0 : Nat) - (0 : Nat)
    lia
  · intro w hw
    cases hw

theorem SemInv.boot (hv : value < 2 ^ 31) (h0 : (semSys value).init s) : SemInv value s := by
  change s = semInit value at h0
  rw [h0]
  exact .init hv

theorem blocked_eq_zero {q : WaitQueue} : q.blocked = 0 ↔ q.list = [] := List.length_eq_zero_iff

theorem SemInv.post (h : SemInv value s) (hg : s.count < 2 ^ 31 - 1) : SemInv value s.semPost := by
  have hw : wrap32 (s.count + 1) = s.count + 1 := wrap32_of_range (by have := h.lo; lia) (by lia)
  have hc := h.count
  have hlo := h.lo
  have hp := h.permits
  unfold Semaphore.permits at hc hp
  unfold semPost
  dsimp only
  rw [hw]
  split
  · rename_i hle
    by_cases hl : s.wait.list = []
    · rw [WaitQueue.wakeOne_nil hl]
      refine ⟨h.wf, ?_, ?_, ?_, ?_, fun hl' => absurd hl hl', h.timed⟩ <;> (try unfold Semaphore.permits) <;>
        dsimp only <;> lia
    · obtain ⟨h1, h2, h3⟩ := WaitQueue.wakeOne_counts hl
      have hs := h.served hl
      unfold Semaphore.permits at hs
      refine ⟨h.wf.perm WaitQueue.threads_wakeOne, ?_, ?_, ?_, ?_, fun _ => ?_, ?_⟩ <;>
        (try unfold Semaphore.permits) <;> dsimp only
      · lia
      · lia
      · lia
      · lia
      · lia
      · intro w hw ht
        unfold WaitQueue.wakeOne at hw
        split at hw
        · exact h.timed w hw ht
        · rcases List.mem_cons.mp hw with rfl | hw
          · cases ht
          · exact h.timed w hw ht
  · rename_i hgt
    refine ⟨h.wf, ?_, ?_, ?_, ?_, fun hl => ?_, h.timed⟩ <;> (try unfold Semaphore.permits) <;> dsimp only
    · lia
    · lia
    · lia
    · lia
    · have hs := h.served hl
      have hb : s.wait.blocked ≠ 0 := fun e => hl (blocked_eq_zero.mp e)
      unfold Semaphore.permits at hs
      lia

/-- a unit taken off `count` by a call that finds a permit -/
theorem SemInv.take (h : SemInv value s) (hc : 0 < s.count) (f : Nat → Bool)
    (hf : ∀ w ∈ s.wait.woken, w.2 = .timedOut → f w.1.thread = true) :
    SemInv value { s with count := wrap32 (s.count - 1), taken := s.taken + 1, inTimedwait := f } := by
  have hw : wrap32 (s.count - 1) = s.count - 1 := wrap32_of_range (by lia) (by have := h.hi; lia)
  have hcount := h.count
  have hhi := h.hi
  have hp := h.permits
  unfold Semaphore.permits at hcount hp
  rw [hw]
  refine ⟨h.wf, ?_, ?_, ?_, ?_, fun hl => ?_, hf⟩ <;> (try unfold Semaphore.permits) <;> dsimp only
  · lia
  · lia
  · lia
  · lia
  · have hs := h.served hl
    unfold Semaphore.permits at hs
    lia

/-- a call that blocks -/
theorem SemInv.block (h : SemInv value s) {t timeout : Nat} (ht : t ∉ s.wait.threads) (hc : s.count ≤ 0)
    (hlo : -2 ^ 31 < s.count) (hg : s.WaitsForPermit) (b : Bool) :
    SemInv value { s with count := wrap32 (s.count - 1)
                          inTimedwait := Function.update s.inTimedwait t b
                          wait := s.wait.block t timeout } := by
  have hw : wrap32 (s.count - 1) = s.count - 1 := wrap32_of_range (by lia) (by lia)
  have hcount := h.count
  have hp := h.permits
  have hb := WaitQueue.blocked_block (q := s.wait) (t := t) timeout
  have hzero : s.permits value = 0 := by
    by_cases hl : s.wait.list = []
    · have := hg hc hl
      have hb0 := blocked_eq_zero.mpr hl
      lia
    · exact h.served hl
  rw [hw]
  refine ⟨h.wf.block ht timeout, ?_, ?_, ?_, ?_, fun _ => ?_, ?_⟩ <;> unfold Semaphore.permits at * <;>
    dsimp only
  · lia
  · lia
  · rw [hb, WaitQueue.granted_block, WaitQueue.expired_block]
    lia
  · rw [WaitQueue.granted_block]
    lia
  · rw [WaitQueue.granted_block]
    lia
  · intro w hw' hto
    have hne : w.1.thread ≠ t := by
      rintro rfl
      exact ht (WaitQueue.mem_threads.mpr (.inr ⟨w, hw', rfl⟩))
    rw [Function.update_of_ne hne]
    exact h.timed w hw' hto

/-- what a call says of the thread that makes it changes nothing for the others -/
theorem SemInv.calls (h : SemInv value s) {t : Nat} (ht : t ∉ s.wait.threads) (b : Bool) :
    ∀ w ∈ s.wait.woken, w.2 = .timedOut → Function.update s.inTimedwait t b w.1.thread = true := by
  intro w hw hto
  have hne : w.1.thread ≠ t := by
    rintro rfl
    exact ht (WaitQueue.mem_threads.mpr (.inr ⟨w, hw, rfl⟩))
  rw [Function.update_of_ne hne]
  exact h.timed w hw hto

theorem SemInv.wait (h : SemInv value s) {t : Nat} (ht : t ∉ s.wait.threads)
    (hg : -2 ^ 31 < s.count ∧ s.WaitsForPermit) : SemInv value (s.semWait t) := by
  have hw : wrap32 (s.count - 1) = s.count - 1 := wrap32_of_range (by omega) (by have := h.hi; omega)
  unfold semWait
  dsimp only
  split
  · exact h.block ht (by omega) hg.1 hg.2 false
  · exact h.take (by omega) _ (h.calls ht false)

theorem SemInv.trywait (h : SemInv value s) : SemInv value s.semTrywait := by
  unfold semTrywait
  split
  · exact h
  · exact h.take (by omega) _ h.timed

theorem SemInv.timedwait (h : SemInv value s) {t timeout : Nat} (ht : t ∉ s.wait.threads)
    (hg : -2 ^ 31 < s.count ∧ (timeout ≠ 0 → s.WaitsForPermit)) :
    SemInv value (s.semTimedwait t timeout) := by
  have hw : wrap32 (s.count - 1) = s.count - 1 := wrap32_of_range (by omega) (by have := h.hi; omega)
  unfold semTimedwait
  dsimp only
  split
  · rename_i hlt
    split
    · -- the unit is given back at once
      have hback : wrap32 (wrap32 (s.count - 1) + 1) = s.count := by
        rw [hw, Int.sub_add_cancel]
        exact wrap32_of_range h.lo h.hi
      rw [hback]
      exact ⟨h.wf, h.lo, h.hi, h.count, h.permits, h.served, h.calls ht true⟩
    · rename_i hto
      exact h.block ht (by omega) hg.1 (hg.2 hto) true
  · exact h.take (by omega) _ (h.calls ht true)

/-- steps of the timers that leave the threads where they are -/
theorem SemInv.same (h : SemInv value s) {q : WaitQueue} (hl : q.list = s.wait.list)
    (hw : q.woken = s.wait.woken) : SemInv value { s with wait := q } := by
  have hb : q.blocked = s.wait.blocked := by
    unfold WaitQueue.blocked
    rw [hl]
  have hgr : q.granted = s.wait.granted := by
    unfold WaitQueue.granted
    rw [hw]
  have hex : q.expired = s.wait.expired := by
    unfold WaitQueue.expired
    rw [hw]
  have hp : Semaphore.permits value { s with wait := q } = s.permits value := by
    unfold Semaphore.permits
    rw [hgr]
  refine ⟨h.wf.same hl hw, h.lo, h.hi, ?_, ?_, ?_, ?_⟩
  · rw [hp, hb, hex]
    exact h.count
  · rw [hp]
    exact h.permits
  · intro hne
    rw [hp]
    exact h.served (by rwa [← hl])
  · intro w hm
    rw [hw] at hm
    exact h.timed w hm

theorem SemInv.timeoutHandler (h : SemInv value s) {t : Nat} {q : WaitQueue}
    (hg : (∃ w ∈ s.wait.list, w.thread = t) → s.inTimedwait t = true)
    (hq : s.wait.timeoutHandler t = some q) : SemInv value { s with wait := q } := by
  have hwf := h.wf.perm (WaitQueue.threads_timeoutHandler hq)
  rcases WaitQueue.timeoutHandler_cases hq with ⟨hl, hw, -⟩ | ⟨w, hl, hwt, hw⟩
  · exact h.same hl hw
  · obtain ⟨h1, h2, h3⟩ := WaitQueue.timeoutHandler_counts hl hw
    have hne : s.wait.list ≠ [] := by
      intro e
      rw [e] at hl
      exact absurd hl.symm (List.cons_ne_nil _ _ ∘ List.Perm.eq_nil)
    have hp : Semaphore.permits value { s with wait := q } = s.permits value := by
      unfold Semaphore.permits
      rw [h2]
    have hc := h.count
    refine ⟨hwf, h.lo, h.hi, ?_, ?_, ?_, ?_⟩
    · rw [hp]
      show s.count = s.permits value - q.blocked - q.expired
      lia
    · rw [hp]
      exact h.permits
    · intro _
      rw [hp]
      exact h.served hne
    · intro v hv hto
      rw [hw] at hv
      rcases List.mem_cons.mp hv with rfl | hv
      · exact hwt ▸ hg ⟨w, hl.mem_iff.mpr (by simp), hwt⟩
      · exact h.timed v hv hto

theorem SemInv.resume (h : SemInv value s) {t : Nat}
    (hg : (∃ w ∈ s.wait.woken, w.1.thread = t ∧ w.2 = .timedOut) → s.count < 2 ^ 31 - 1)
    (hs : s.semResume t = some s') : SemInv value s' := by
  obtain ⟨⟨ret, q⟩, hr, rfl⟩ := Option.map_eq_some_iff.mp hs
  obtain ⟨hl, w, hp, hwt⟩ := WaitQueue.resume_some hr
  obtain ⟨h1, h2, h3⟩ := WaitQueue.resume_counts hr
  have hwf := (h.wf.resume hr).1
  have hc := h.count
  have hpe := h.permits
  have hmem : ∀ v ∈ q.woken, v ∈ s.wait.woken := fun v hv => hp.mem_iff.mpr (List.mem_cons_of_mem _ hv)
  have htimed : ∀ v ∈ q.woken, v.2 = .timedOut → s.inTimedwait v.1.thread = true := fun v hv => h.timed v (hmem v hv)
  have hserved : q.list ≠ [] → s.permits value = 0 := fun hne => h.served (by rwa [← hl])
  unfold Semaphore.permits at hc hpe hserved
  cases ret with
  | noError =>
    simp only [if_true, if_false, reduceCtorEq] at h2 h3
    refine ⟨hwf, h.lo, h.hi, ?_, ?_, fun hne => ?_, htimed⟩ <;> unfold Semaphore.permits <;> dsimp only
    · lia
    · lia
    · have := hserved hne
      lia
  | timedOut =>
    simp only [if_true, if_false, reduceCtorEq] at h2 h3
    have hm : (w, WaitRet.timedOut) ∈ s.wait.woken := hp.mem_iff.mpr (by simp)
    have hin : s.inTimedwait t = true := hwt ▸ h.timed _ hm rfl
    have hlt := hg ⟨_, hm, hwt, rfl⟩
    have hw : wrap32 (s.count + 1) = s.count + 1 := wrap32_of_range (by have := h.lo; lia) (by lia)
    dsimp only
    rw [if_pos hin, hw]
    have hlo := h.lo
    refine ⟨hwf, ?_, ?_, ?_, ?_, fun hne => ?_, htimed⟩ <;> (try unfold Semaphore.permits) <;> dsimp only
    · lia
    · lia
    · lia
    · lia
    · have := hserved hne
      lia

theorem SemInv.step (h : SemInv value s) {op : SemOp} (hg : SemGuard s op) (hs : semStep s op = some s') :
    SemInv value s' := by
  cases op with
  | post =>
    cases hs
    exact h.post hg
  | wait t =>
    simp only [semStep] at hs
    split at hs
    · cases hs
    · rename_i ht
      cases hs
      exact h.wait ht hg
  | trywait =>
    cases hs
    exact h.trywait
  | timedwait t timeout =>
    simp only [semStep] at hs
    split at hs
    · cases hs
    · rename_i ht
      cases hs
      exact h.timedwait ht hg
  | resume t => exact h.resume hg hs
  | timerTick t =>
    obtain ⟨q, hq, rfl⟩ := Option.map_eq_some_iff.mp hs
    obtain ⟨hl, hw⟩ := WaitQueue.timerTick_eq hq
    exact h.same hl hw
  | timeoutHandler t =>
    obtain ⟨q, hq, rfl⟩ := Option.map_eq_some_iff.mp hs
    exact h.timeoutHandler hg hq
  | elsewhere t =>
    simp only [semStep] at hs
    split at hs
    · cases hs
    · cases hs
      exact h.same rfl rfl

/-- **Semaphore conservation.**  In runs under the guard no permit is made up or lost, and no thread waits
while there is one. -/
theorem sem_conserved (hv : value < 2 ^ 31) (hr : (semSys value).Run SemGuard s) : SemConserved value s :=
  (hr.invariant (I := SemInv value) (fun _ h0 => .boot hv h0) fun _ _ _ h hg hs => h.step hg hs).conserved

end

/-- the theorem after a wait that timed out, a post and a wait, the first thread having run in between -/
theorem sem_conserved_timeout : ∃ s,
    Machine.execIf SemGuard semStep (semInit 0)
      [.timedwait 1 5, .timerTick 1, .timeoutHandler 1, .resume 1, .post, .wait 2] = some s ∧
    s.wait.list = [] ∧ SemConserved 0 s := by
  have h0 : (semSys 0).Run SemGuard (semInit 0) := .init rfl
  obtain ⟨s, hs, hl⟩ := (Option.any_eq_true _ _).mp (show (Machine.execIf SemGuard semStep (semInit 0)
    [.timedwait 1 5, .timerTick 1, .timeoutHandler 1, .resume 1, .post, .wait 2]).any
      (fun s => s.wait.list = []) by decide)
  exact ⟨s, hs, by simpa using hl, sem_conserved (by decide) (h0.execIf _ hs)⟩

/-- **A permit left over.**  Thread 1 timed out and has not run; a post finds nobody to wake; thread 2 waits
all the same. -/
theorem sem_conserved_fails : ¬ ∀ (value : Nat) (s : Semaphore), value < 2 ^ 31 → (semSys value).Reach s →
    SemConserved value s := by
  intro h
  have h0 : (semSys 0).Reach (semInit 0) := .init rfl
  obtain ⟨s, hs, hl, hp⟩ : ∃ s,
      Machine.exec semStep (semInit 0) [.timedwait 1 5, .timerTick 1, .timeoutHandler 1, .post, .wait 2] =
        some s ∧ s.wait.list ≠ [] ∧ s.permits 0 ≠ 0 :=
    ⟨_, rfl, by decide, by decide⟩
  exact hp ((h 0 s (by decide) (h0.exec _ hs)).served hl)

end Semaphore
end LkHv
