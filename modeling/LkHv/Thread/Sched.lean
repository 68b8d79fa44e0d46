import Mathlib.Algebra.Order.Group.Int
import LkHv.Lib.Machine
import LkHv.Vgic.Irq

/-!
# The scheduler (`kernel/thread.c`) and the vCPU operations on it (`hv/hv_vcpu.c`)

Threads, run queues and wait queues.  The priorities are 0 to 31, with a run queue and a bit of the bitmap
each.  What a function does under `thread_lock` is one step.

* `Tcb`, `Sched`       a thread, and everything together;
* `threadCreate`, `threadResume`, `threadYield`, `threadPreempt`, `threadResched`, `threadUnblock`,
  `threadSleep`, `threadSleepHandler`, `threadSetPriority`, `threadExit`, `waitQueueBlock`,
  `waitQueueWakeOne`, `waitQueueWakeAll`, `threadUnblockFromWaitQueue`   the source's;
* `hvVcpuStart`, `hvVcpuStop`, `hvVcpuBlock`, `hvVcpuResume`, `hvVcpuPoweroff`   the hypervisor's;
* `schedSys`           all of them in any order.
-/

namespace LkHv
namespace Thread

/-- `enum thread_state` -/
inductive ThreadState
  | suspended
  | ready
  | running
  | blocked
  | sleeping
  | death
deriving DecidableEq

/-- a wait queue: that of some object, or the one of the threads that join a thread -/
inductive WqId
  | object (n : Nat)
  | retcode (t : Nat)
deriving DecidableEq

/-- `thread_t` -/
structure Tcb where
  state : ThreadState
  priority : Nat
  remainingQuantum : Int
  /-- `THREAD_FLAG_IDLE` -/
  idle : Bool
  /-- `THREAD_FLAG_REAL_TIME` -/
  realTime : Bool
  currCpu : Option Nat
  pinnedCpu : Option Nat
  blockingWaitQueue : Option WqId

/-- `wait_queue_t` -/
structure Wq where
  list : List Nat
  count : Int

/-- what the scheduling of a `struct lk_vcpu` needs of it -/
structure SchedVcpu where
  status : VcpuStatus
  thread : Nat

def NUM_PRIORITIES : Nat := 32
def HIGHEST_PRIORITY : Int := 31
def IDLE_PRIORITY : Int := 0

/-- the threads (a thread is the address of its `thread_t`), the queues, and the CPUs -/
structure Sched where
  tcb : Nat → Tcb
  runQueue : Nat → List Nat
  runQueueBitmap : Nat → Bool
  waitQueue : WqId → Wq
  /-- `get_current_thread` of a CPU -/
  curr : Nat → Nat
  idleThread : Nat → Nat
  /-- the timer of the thread's `thread_sleep` is set -/
  sleepTimer : Nat → Bool
  vcpu : VcpuId → SchedVcpu

namespace Sched

def setTcb (s : Sched) (t : Nat) (b : Tcb) : Sched := { s with tcb := Function.update s.tcb t b }

@[simp] theorem setTcb_self (s : Sched) (t : Nat) (b : Tcb) : (s.setTcb t b).tcb t = b := Function.update_self _ _ _

theorem setTcb_of_ne (s : Sched) {t u : Nat} (b : Tcb) (h : u ≠ t) : (s.setTcb t b).tcb u = s.tcb u :=
  Function.update_of_ne h _ _

def setState (s : Sched) (t : Nat) (st : ThreadState) : Sched := s.setTcb t { s.tcb t with state := st }

/-! ## run queues -/

/-- the run queue of the thread becomes `l` -/
def insertRunQueue (s : Sched) (t : Nat) (l : List Nat) : Sched :=
  { s with
    runQueue := Function.update s.runQueue (s.tcb t).priority l
    runQueueBitmap := Function.update s.runQueueBitmap (s.tcb t).priority true }

def insertInRunQueueHead (s : Sched) (t : Nat) : Sched := s.insertRunQueue t (t :: s.runQueue (s.tcb t).priority)

def insertInRunQueueTail (s : Sched) (t : Nat) : Sched := s.insertRunQueue t (s.runQueue (s.tcb t).priority ++ [t])

/-- `list_delete` of the thread's `queue_node`, whichever list it is on -/
def removeTaskFromRqueue (s : Sched) (t : Nat) : Sched :=
  { s with
    runQueue := fun p => (s.runQueue p).erase t
    waitQueue := fun w => { s.waitQueue w with list := (s.waitQueue w).list.erase t } }

/-- the thread may run on the CPU -/
def fits (s : Sched) (cpu t : Nat) : Bool :=
  match (s.tcb t).pinnedCpu with
  | none => true
  | some p => p == cpu

/-- the search of `get_top_thread` through the queues below `n`, the highest first -/
def topThread (s : Sched) (cpu : Nat) : Nat → Option (Nat × Nat)
  | 0 => none
  | p + 1 =>
    if s.runQueueBitmap p then
      match (s.runQueue p).find? (s.fits cpu) with
      | some t => some (p, t)
      | none => topThread s cpu p
    else topThread s cpu p

def getTopThread (s : Sched) (cpu : Nat) : Sched × Nat :=
  match s.topThread cpu NUM_PRIORITIES with
  | some (p, t) =>
    let l := (s.runQueue p).erase t
    ({ s with
        runQueue := Function.update s.runQueue p l
        runQueueBitmap := if l = [] then Function.update s.runQueueBitmap p false else s.runQueueBitmap }, t)
  | none => (s, s.idleThread cpu)

def threadResched (s : Sched) (cpu : Nat) : Sched :=
  let r := s.getTopThread cpu
  let s := r.1.setState r.2 .running
  if r.2 = s.curr cpu then s
  else
    let b := s.tcb r.2
    let s := s.setTcb r.2 { b with remainingQuantum := if b.remainingQuantum ≤ 0 then 5 else b.remainingQuantum }
    let s := s.setTcb (s.curr cpu) { s.tcb (s.curr cpu) with currCpu := none }
    let s := s.setTcb r.2 { s.tcb r.2 with currCpu := some cpu }
    { s with curr := Function.update s.curr cpu r.2 }

/-! ## threads -/

/-- `THREAD_READY`, at the head of its run queue -/
def readyHead (s : Sched) (t : Nat) : Sched := (s.setState t .ready).insertInRunQueueHead t

def readyTail (s : Sched) (t : Nat) : Sched := (s.setState t .ready).insertInRunQueueTail t

/-- `thread_create`, and the pinning by its caller -/
def threadCreate (s : Sched) (t priority : Nat) (pinned : Option Nat) : Sched :=
  { s.setTcb t ⟨.suspended, priority, 0, false, false, none, pinned, none⟩ with
    waitQueue := Function.update s.waitQueue (.retcode t) ⟨[], 0⟩ }

def threadReset (s : Sched) (t : Nat) : Sched :=
  { s.setTcb t { s.tcb t with state := .suspended, blockingWaitQueue := none } with
    waitQueue := Function.update s.waitQueue (.retcode t) ⟨[], 0⟩ }

def threadResume (s : Sched) (t : Nat) : Sched := if (s.tcb t).state = .suspended then s.readyHead t else s

/-- what `thread_yield` and `thread_preempt` do with the thread they take off the CPU -/
def putBack (s : Sched) (t : Nat) (head : Bool) : Sched :=
  if (s.tcb t).idle then s.setState t .ready else if head then s.readyHead t else s.readyTail t

def threadYield (s : Sched) (cpu : Nat) : Sched :=
  let t := s.curr cpu
  ((s.setTcb t { s.tcb t with remainingQuantum := 0 }).putBack t false).threadResched cpu

def threadPreempt (s : Sched) (cpu : Nat) : Sched :=
  let t := s.curr cpu
  (s.putBack t (decide ((s.tcb t).remainingQuantum > 0))).threadResched cpu

/-- `thread_block`, and `VCPU_RESCHED_EXIT` of `thread_vcpu_sched` -/
def threadBlock (s : Sched) (cpu : Nat) : Sched := s.threadResched cpu

def threadUnblock (s : Sched) (cpu t : Nat) (resched : Bool) : Sched :=
  if resched then (s.readyHead t).threadResched cpu else s.readyHead t

def threadTimerTick (s : Sched) (cpu : Nat) : Sched :=
  let t := s.curr cpu
  let b := s.tcb t
  if b.realTime || b.idle then s else s.setTcb t { b with remainingQuantum := b.remainingQuantum - 1 }

def threadSetRealTime (s : Sched) (t : Nat) : Sched := s.setTcb t { s.tcb t with realTime := true }

def threadSleep (s : Sched) (cpu : Nat) : Sched :=
  ({ s with sleepTimer := Function.update s.sleepTimer (s.curr cpu) true }.setState (s.curr cpu)
    .sleeping).threadResched cpu

def threadSleepHandler (s : Sched) (t : Nat) : Sched :=
  { s with sleepTimer := Function.update s.sleepTimer t false }.readyHead t

/-- the priority that `thread_set_priority` sets -/
def clampPriority (priority : Int) : Nat :=
  if priority ≤ IDLE_PRIORITY then (IDLE_PRIORITY + 1).toNat
  else if priority > HIGHEST_PRIORITY then HIGHEST_PRIORITY.toNat
  else priority.toNat

def threadSetPriority (s : Sched) (cpu : Nat) (priority : Int) : Sched :=
  let t := s.curr cpu
  ((s.setTcb t { s.tcb t with priority := clampPriority priority }).readyHead t).threadResched cpu

/-! ## wait queues -/

/-- the thread is off the list of the wait queue -/
def leaveWaitQueue (s : Sched) (w : WqId) (t : Nat) : Sched :=
  { s.setTcb t { s.tcb t with blockingWaitQueue := none } with
    waitQueue := Function.update s.waitQueue w
      ⟨(s.waitQueue w).list.erase t, (s.waitQueue w).count - 1⟩ }

/-- the thread is at the end of the wait queue -/
def enterWaitQueue (s : Sched) (w : WqId) (t : Nat) : Sched :=
  { s.setTcb t { s.tcb t with state := .blocked, blockingWaitQueue := some w } with
    waitQueue := Function.update s.waitQueue w
      ⟨(s.waitQueue w).list ++ [t], (s.waitQueue w).count + 1⟩ }

def waitQueueBlock (s : Sched) (cpu : Nat) (w : WqId) (timeout : Nat) : Sched :=
  if timeout = 0 then s else (s.enterWaitQueue w (s.curr cpu)).threadResched cpu

def waitQueueWakeOne (s : Sched) (cpu : Nat) (w : WqId) (reschedule : Bool) : Sched :=
  match (s.waitQueue w).list with
  | [] => s
  | t :: _ =>
    let s := s.leaveWaitQueue w t
    if reschedule then ((s.readyHead (s.curr cpu)).readyHead t).threadResched cpu else s.readyHead t

/-- the loop of `wait_queue_wake_all` over the threads of the queue -/
def wakeLoop (w : WqId) : Sched → List Nat → Sched
  | s, [] => s
  | s, t :: l => wakeLoop w ((s.leaveWaitQueue w t).readyHead t) l

def waitQueueWakeAll (s : Sched) (cpu : Nat) (w : WqId) (reschedule : Bool) : Sched :=
  let l := (s.waitQueue w).list
  let s := if reschedule ∧ (s.waitQueue w).count > 0 then s.readyHead (s.curr cpu) else s
  let s := wakeLoop w s l
  if l ≠ [] ∧ reschedule then s.threadResched cpu else s

/-- also what the timer of a wait does -/
def threadUnblockFromWaitQueue (s : Sched) (t : Nat) : Sched :=
  if (s.tcb t).state ≠ .blocked then s
  else
    match (s.tcb t).blockingWaitQueue with
    | none => s
    | some w => (s.leaveWaitQueue w t).readyHead t

def threadExit (s : Sched) (cpu : Nat) : Sched :=
  let t := s.curr cpu
  ((s.setState t .death).waitQueueWakeAll cpu (.retcode t) false).threadResched cpu

/-! ## vCPUs -/

def setStatus (s : Sched) (v : VcpuId) (st : VcpuStatus) : Sched :=
  { s with vcpu := Function.update s.vcpu v { s.vcpu v with status := st } }

def hvVcpuCpuId (s : Sched) (v : VcpuId) : Option Nat :=
  match (s.tcb (s.vcpu v).thread).pinnedCpu with
  | some p => some p
  | none => (s.tcb (s.vcpu v).thread).currCpu

/-- the flag says that the caller has to reschedule -/
def stopCurrentCpuThread (s : Sched) (t : Nat) : Sched × Bool :=
  match (s.tcb t).state with
  | .ready => ((s.setState t .blocked).removeTaskFromRqueue t, false)
  | .running => (s.setState t .blocked, true)
  | _ => (s.setState t .blocked, false)

/-- on another CPU's vCPU an event is sent, and the CPU does the same when it handles the event -/
def hvVcpuStop (s : Sched) (cpu : Nat) (v : VcpuId) : Sched × Bool :=
  if (s.vcpu v).status = .blocked then (s, false)
  else
    match s.hvVcpuCpuId v with
    | none => (s, false)
    | some d => if d = cpu then (s.setStatus v .blocked).stopCurrentCpuThread (s.vcpu v).thread else (s, false)

/-- what CPU_SUSPEND calls -/
def hvVcpuBlock (s : Sched) (cpu : Nat) (v : VcpuId) : Sched :=
  let r := s.hvVcpuStop cpu v
  if r.2 then r.1.threadBlock cpu else r.1

def hvVcpuResume (s : Sched) (v : VcpuId) : Sched :=
  if (s.vcpu v).status ≠ .blocked then s
  else (((s.setStatus v .ready).setState (s.vcpu v).thread .ready)).threadResume (s.vcpu v).thread

def hvVcpuStart (s : Sched) (v : VcpuId) : Sched :=
  let t := (s.vcpu v).thread
  if (s.vcpu v).status ≠ .created ∧ (s.vcpu v).status ≠ .shutdown then s
  else
    let s :=
      if (s.vcpu v).status = .shutdown then
        (if (s.tcb t).state = .blocked then s.setState t .suspended else s).threadReset t
      else s
    (s.setStatus v .ready).threadResume t

def hvVcpuPoweroff (s : Sched) (cpu : Nat) (v : VcpuId) : Sched × Bool :=
  if (s.vcpu v).status = .shutdown ∨ (s.vcpu v).status = .created then (s, false)
  else
    match s.hvVcpuCpuId v with
    | none => (s, false)
    | some d => if d = cpu then (s.setStatus v .shutdown).stopCurrentCpuThread (s.vcpu v).thread else (s, false)

end Sched

/-! ## the machine -/

inductive SchedOp
  | create (t priority : Nat) (pinned : Option Nat)
  | resume (t : Nat)
  | yield (cpu : Nat)
  | preempt (cpu : Nat)
  | block (cpu : Nat)
  | unblock (cpu t : Nat) (resched : Bool)
  | tick (cpu : Nat)
  | setRealTime (t : Nat)
  | sleep (cpu : Nat)
  | sleepHandler (t : Nat)
  | setPriority (cpu : Nat) (priority : Int)
  | waitBlock (cpu : Nat) (w : WqId) (timeout : Nat)
  | wakeOne (cpu : Nat) (w : WqId) (reschedule : Bool)
  | wakeAll (cpu : Nat) (w : WqId) (reschedule : Bool)
  | unblockFromWaitQueue (t : Nat)
  | exit (cpu : Nat)
  | vcpuCreate (v : VcpuId) (t priority : Nat) (pinned : Option Nat)
  | vcpuStart (v : VcpuId)
  | vcpuStop (cpu : Nat) (v : VcpuId)
  | vcpuBlock (cpu : Nat) (v : VcpuId)
  | vcpuResume (v : VcpuId)
  | vcpuPoweroff (cpu : Nat) (v : VcpuId)

def schedStep (s : Sched) : SchedOp → Sched
  | .create t p pinned => s.threadCreate t p pinned
  | .resume t => s.threadResume t
  | .yield c => s.threadYield c
  | .preempt c => s.threadPreempt c
  | .block c => s.threadBlock c
  | .unblock c t resched => s.threadUnblock c t resched
  | .tick c => s.threadTimerTick c
  | .setRealTime t => s.threadSetRealTime t
  | .sleep c => s.threadSleep c
  | .sleepHandler t => s.threadSleepHandler t
  | .setPriority c p => s.threadSetPriority c p
  | .waitBlock c w timeout => s.waitQueueBlock c w timeout
  | .wakeOne c w reschedule => s.waitQueueWakeOne c w reschedule
  | .wakeAll c w reschedule => s.waitQueueWakeAll c w reschedule
  | .unblockFromWaitQueue t => s.threadUnblockFromWaitQueue t
  | .exit c => s.threadExit c
  | .vcpuCreate v t p pinned =>
    { s.threadCreate t p pinned with vcpu := Function.update s.vcpu v ⟨.created, t⟩ }
  | .vcpuStart v => s.hvVcpuStart v
  | .vcpuStop c v => (s.hvVcpuStop c v).1
  | .vcpuBlock c v => s.hvVcpuBlock c v
  | .vcpuResume v => s.hvVcpuResume v
  | .vcpuPoweroff c v => (s.hvVcpuPoweroff c v).1

/-- no CPU runs the thread -/
def Sched.Off (s : Sched) (t : Nat) : Prop := ∀ c, s.curr c ≠ t

/-- the memory of a new thread is that of none, or of one that is gone -/
def Sched.Free (s : Sched) (t : Nat) : Prop :=
  (s.tcb t).state = .death ∧ (s.tcb t).idle = false ∧ s.Off t ∧ (s.waitQueue (.retcode t)).list = []

/-- what the functions ask of their callers, by their comments and `DEBUG_ASSERT`s: the idle thread does not
block, a thread that is unblocked is blocked on no wait queue, a timer that fires was set, a thread that
reschedules is not running, a vCPU is there -/
def SchedEnabled (s : Sched) : SchedOp → Prop
  | .create t p _ => s.Free t ∧ p < NUM_PRIORITIES
  | .vcpuCreate _ t p _ => s.Free t ∧ p < NUM_PRIORITIES
  | .block c => (s.tcb (s.curr c)).state ≠ .running ∧ (s.tcb (s.curr c)).idle = false
  | .unblock _ t _ => (s.tcb t).state = .blocked ∧ (s.tcb t).blockingWaitQueue = none
  | .sleep c | .setPriority c _ | .waitBlock c _ _ | .exit c => (s.tcb (s.curr c)).idle = false
  | .wakeOne c _ reschedule | .wakeAll c _ reschedule => reschedule = true → (s.tcb (s.curr c)).idle = false
  | .sleepHandler t => s.sleepTimer t = true
  | .vcpuStart v | .vcpuStop _ v | .vcpuBlock _ v | .vcpuResume v | .vcpuPoweroff _ v =>
    (s.vcpu v).status ≠ .destroy
  | _ => True

/-- every CPU runs its idle thread, and there is no other thread yet -/
structure SchedBoot (s : Sched) : Prop where
  curr : ∀ c, s.curr c = s.idleThread c
  idleInj : ∀ c d, s.idleThread c = s.idleThread d → c = d
  idle : ∀ t, (s.tcb t).idle = true ↔ ∃ c, t = s.idleThread c
  state : ∀ t, (s.tcb t).state = if (s.tcb t).idle then .running else .death
  priority : ∀ t, (s.tcb t).priority < NUM_PRIORITIES
  blocking : ∀ t, (s.tcb t).blockingWaitQueue = none
  runQueue : ∀ p, s.runQueue p = []
  waitQueue : ∀ w, s.waitQueue w = ⟨[], 0⟩
  sleepTimer : ∀ t, s.sleepTimer t = false
  vcpu : ∀ v, (s.vcpu v).status = .destroy

end Thread
end LkHv
