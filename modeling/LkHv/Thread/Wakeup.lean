import LkHv.Thread.Queues
import LkHv.Vgic.Pending

/-!
# The wake-up of a vCPU

Guest entry and exit, CPU_SUSPEND and the scheduler, with `hv_vcpu_inject_virq` on any CPU at any time.

* `Wake`, `wakeSys`        the interrupt controller, the scheduler, and what each CPU does;
* `FlushFirst`, `Woken`    the target flushes its pending list before it is in the guest again, or its CPU
  was kicked, and it is ready again if it was suspended;
* `Spared`, `Kept`         what the scheduler leaves alone: a thread that is blocked or on another CPU, and what
  another CPU runs;
* `WakeInv`                the invariant;
* `vcpu_wakeup`            exactly when an injection wakes its target;
* `vcpu_wakeup_fails`      it does not wake one that runs on another CPU.
-/

namespace LkHv
namespace Thread

def VCPU_FLAGS_EVENT : Nat := 1

/-- what a CPU does: the hypervisor; the hypervisor, between `hv_vcpu_stop` of CPU_SUSPEND and its
`thread_block`; the hypervisor, between `hv_virq_to_lrs` and `eret`; the guest -/
inductive CpuMode
  | host
  | stopping
  | flushed
  | guest
deriving DecidableEq

structure Wake where
  gic : Vgic
  sched : Sched
  /-- the field `vcpu` of a thread -/
  vcpu : Nat → Option VcpuId
  flags : VcpuId → Nat
  isInited : VcpuId → Bool
  mode : Nat → CpuMode
  /-- the CPUs to which `MP_IPI_HV_EVENT1` is on its way -/
  kicked : Nat → Bool

namespace Wake

def setMode (w : Wake) (c : Nat) (m : CpuMode) : Wake := { w with mode := Function.update w.mode c m }

/-- `hv_empty_event` -/
def hvEmptyEvent (w : Wake) (cpu : Nat) : Wake := { w with kicked := Function.update w.kicked cpu true }

/-- `is_vcpu_lowpower` -/
def isVcpuLowpower (w : Wake) (v : VcpuId) : Bool := w.flags v &&& VCPU_FLAGS_EVENT != 0

/-- `hv_vcpu_inject_virq` on the CPU `c`.  The tests after the insertion read what no step between changes
(`WakeInv.status`, `WakeInv.flags`), so that the function is one step. -/
def hvVcpuInjectVirq (w : Wake) (c : Nat) (v : VcpuId) (x : VirqId) : Wake × Int :=
  if ¬ (w.gic.irqs x).enable then (w, -1)
  else if (w.sched.vcpu v).status = .shutdown then (w, -1)
  else if (w.gic.irqs x).pdq then (w, 0)
  else
    let w := { w with gic := w.gic.insertIntoPdlist x v }
    if (w.sched.vcpu v).status = .running ∧ w.gic.vcpu c ≠ some v then
      match w.sched.hvVcpuCpuId v with
      | none => (w, -1)
      | some d => (w.hvEmptyEvent d, 0)
    else if w.isVcpuLowpower v then ({ w with sched := w.sched.hvVcpuResume v }, 0)
    else (w, 0)

/-- `hv_virq_to_lrs` -/
def hvVirqToLrs (cfg : VgicConfig) (s : Vgic) (c : Nat) : Vgic :=
  match s.vcpu c with
  | none => s
  | some v => s.flushQueuedVirqs cfg c v

/-- `hv_virq_from_lrs` -/
def hvVirqFromLrs (cfg : VgicConfig) (s : Vgic) (c : Nat) : Vgic :=
  match s.vcpu c with
  | none => s
  | some v => s.syncIrqFromLrs cfg c v

/-- the scheduler ran on the CPU `c`: `thread_resched` switches to the vCPU of a new thread -/
def schedule (cfg : VgicConfig) (w : Wake) (c : Nat) (s : Sched) : Wake :=
  { w with
    sched := s
    gic :=
      if s.curr c = w.sched.curr c then w.gic
      else
        match w.vcpu (s.curr c) with
        | none => w.gic
        | some v => if w.isInited v then w.gic.vcpuSwitchTo cfg c v else w.gic }

/-- the vCPU of the current thread of a CPU -/
def current (w : Wake) (c : Nat) : Option VcpuId := w.vcpu (w.sched.curr c)

/-- `vcpu_start_common` -/
def vcpuStartCommon (cfg : VgicConfig) (w : Wake) (c : Nat) (v : VcpuId) : Wake :=
  { w with
    gic := (w.gic.irqInit v).vcpuSwitchTo cfg c v
    isInited := Function.update w.isInited v true }

end Wake

/-- `thread_create` … `thread_exit`: what the kernel's own threads and a vCPU's thread in the hypervisor do -/
def SchedOp.Plain : SchedOp → Prop
  | .block _ | .unblock _ _ _ | .vcpuCreate _ _ _ _ | .vcpuStart _ | .vcpuStop _ _ | .vcpuBlock _ _ | .vcpuResume _
  | .vcpuPoweroff _ _ => False
  | _ => True

/-- the CPU whose current thread calls the function; a timer, or a call on behalf of others, has none -/
def SchedOp.cpu : SchedOp → Option Nat
  | .yield c | .preempt c | .block c | .tick c | .sleep c | .setPriority c _ | .waitBlock c _ _ | .wakeOne c _ _
  | .wakeAll c _ _ | .exit c | .unblock c _ _ | .vcpuStop c _ | .vcpuBlock c _ | .vcpuPoweroff c _ => some c
  | _ => none

inductive WakeOp
  /-- `hv_vcpu_inject_virq` on the CPU `c` -/
  | inject (c : Nat) (v : VcpuId) (x : VirqId)
  /-- a trapped write of a guest -/
  | enable (x : VirqId) (enable : Bool)
  /-- the first entry of a vCPU, by `vcpu_start_common` -/
  | launch (c : Nat)
  /-- an interrupt or a trap: out of the guest, and `hv_virq_from_lrs` -/
  | exit (c : Nat)
  /-- `hv_virq_to_lrs` on the way back -/
  | flush (c : Nat)
  /-- `eret` -/
  | enter (c : Nat)
  /-- an interrupt of the hypervisor itself -/
  | irq (c : Nat)
  /-- the `hv_vcpu_stop` of CPU_SUSPEND -/
  | suspend (c : Nat)
  /-- its `thread_block` -/
  | suspendBlock (c : Nat)
  /-- its `VCPU_FLAGS_SET` -/
  | suspendFlags (c : Nat)
  | sched (op : SchedOp)

def wakeStep (cfg : VgicConfig) (w : Wake) : WakeOp → Wake
  | .inject c v x => (w.hvVcpuInjectVirq c v x).1
  | .enable x enable => { w with gic := w.gic.virqEnable x enable }
  | .launch c =>
    match w.current c with
    | none => w
    | some v => (w.vcpuStartCommon cfg c v).setMode c .guest
  | .exit c =>
    { w with gic := Wake.hvVirqFromLrs cfg w.gic c, kicked := Function.update w.kicked c false }.setMode c .host
  | .flush c => { w with gic := Wake.hvVirqToLrs cfg w.gic c }.setMode c .flushed
  | .enter c => w.setMode c .guest
  | .irq c => { w with gic := Wake.hvVirqToLrs cfg (Wake.hvVirqFromLrs cfg w.gic c) c }
  | .suspend c =>
    match w.gic.vcpu c with
    | none => w
    | some v =>
      let r := w.sched.hvVcpuStop c v
      if r.2 then { w with sched := r.1 }.setMode c .stopping else { w with sched := r.1 }
  | .suspendBlock c => (w.schedule cfg c (w.sched.threadBlock c)).setMode c .host
  | .suspendFlags c =>
    match w.gic.vcpu c with
    | none => w
    | some v => { w with flags := Function.update w.flags v (w.flags v &&& VCPU_FLAGS_EVENT) }
  | .sched op =>
    match op.cpu with
    | none => { w with sched := schedStep w.sched op }
    | some c => w.schedule cfg c (schedStep w.sched op)

/-- the CPU handles a trap of the guest of its current thread -/
def Wake.Traps (w : Wake) (c : Nat) : Prop := w.mode c = .host ∧ ∃ v, w.current c = some v ∧ w.isInited v = true

/-- the places in the code from which the functions are called -/
def WakeEnabled (w : Wake) : WakeOp → Prop
  | .inject c v _ => w.mode c = .host ∧ (w.sched.vcpu v).status ≠ .destroy
  | .enable _ _ => True
  | .launch c => w.mode c = .host ∧ ∃ v, w.current c = some v ∧ w.isInited v = false
  | .exit c => w.mode c = .guest
  | .flush c | .suspend c | .suspendFlags c => w.Traps c
  | .enter c => w.mode c = .flushed
  | .irq c => w.mode c = .host
  | .suspendBlock c => w.mode c = .stopping ∧ SchedEnabled w.sched (.block c)
  | .sched op =>
    op.Plain ∧ SchedEnabled w.sched op ∧ SchedGuard w.sched op ∧ ∀ c, op.cpu = some c → w.mode c = .host

/-- the interrupt controller is up, each vCPU has its thread, and each thread is where its state says -/
structure WakeBoot (cfg : VgicConfig) (w : Wake) : Prop where
  gic : Vgic.Boot cfg w.gic
  sched : SchedInv.All w.sched
  running : ∀ c, (w.sched.tcb (w.sched.curr c)).state = .running
  status : ∀ v, (w.sched.vcpu v).status = .ready ∨ (w.sched.vcpu v).status = .destroy
  vcpu : ∀ t v, w.vcpu t = some v ↔ (w.sched.vcpu v).thread = t ∧ (w.sched.vcpu v).status ≠ .destroy
  flags : ∀ v, w.flags v = 0
  isInited : ∀ v, w.isInited v = false
  mode : ∀ c, w.mode c = .host
  kicked : ∀ c, w.kicked c = false

def wakeSys (cfg : VgicConfig) : Machine Wake WakeOp where
  init := WakeBoot cfg
  step w op w' := WakeEnabled w op ∧ w' = wakeStep cfg w op

/-! ## the property -/

/-- the thread of the vCPU passes the flush of its pending list -/
def Flushes (w : Wake) (op : WakeOp) (v : VcpuId) : Prop :=
  ∃ c, op = .flush c ∧ w.gic.vcpu c = some v ∧ w.current c = some v

def InGuest (w : Wake) (v : VcpuId) : Prop := ∃ c, w.current c = some v ∧ w.mode c = .guest

/-- whatever happens, the vCPU does not execute guest code before it has passed the flush -/
def FlushFirst (cfg : VgicConfig) (w : Wake) (v : VcpuId) : Prop :=
  ∀ w', (wakeSys cfg).Path (fun w op => ¬ Flushes w op v) w w' → ¬ InGuest w' v

/-- the hypervisor's code runs on behalf of the vCPU, or the vCPU is on no CPU -/
def InHost (w : Wake) (v : VcpuId) : Prop := ∀ c, w.current c = some v → w.mode c = .host ∨ w.mode c = .stopping

/-- **The wake-up** of the vCPU by an injection that leads from `w` to `w'` -/
structure Woken (cfg : VgicConfig) (w w' : Wake) (v : VcpuId) : Prop where
  noticed : FlushFirst cfg w' v ∨
    ∃ c, w'.kicked c = true ∧ w'.current c = some v ∧ (w'.mode c = .flushed ∨ w'.mode c = .guest)
  resumed : (w.sched.vcpu v).status = .blocked →
    (w'.sched.tcb (w.sched.vcpu v).thread).state = .ready ∧ ∃ p, (w.sched.vcpu v).thread ∈ w'.sched.runQueue p

/-! ## what the scheduler leaves alone -/

/-- the thread keeps its state, comes on no run queue and on no CPU -/
structure Spared (t : Nat) (s s' : Sched) : Prop where
  state : (s'.tcb t).state = (s.tcb t).state
  blocking : (s'.tcb t).blockingWaitQueue = (s.tcb t).blockingWaitQueue
  queue : ∀ p, t ∈ s'.runQueue p → t ∈ s.runQueue p
  idleThread : s'.idleThread = s.idleThread
  curr : ∀ d, s'.curr d = t → s.curr d = t

section
variable {s s' s'' : Sched} {t u c : Nat}

theorem Spared.refl (t : Nat) (s : Sched) : Spared t s s := ⟨rfl, rfl, fun _ => id, rfl, fun _ => id⟩

theorem Spared.trans (h : Spared t s s') (h' : Spared t s' s'') : Spared t s s'' :=
  ⟨h'.state.trans h.state, h'.blocking.trans h.blocking, fun p hm => h.queue p (h'.queue p hm),
    h'.idleThread.trans h.idleThread, fun d e => h.curr d (h'.curr d e)⟩

/-- no thread changes but what `thread_t` has beside the state -/
theorem Spared.setTcb {b : Tcb} (h : t = u → b.state = (s.tcb u).state ∧
    b.blockingWaitQueue = (s.tcb u).blockingWaitQueue) : Spared t s (s.setTcb u b) := by
  by_cases e : t = u
  · obtain ⟨h1, h2⟩ := h e
    subst e
    refine ⟨?_, ?_, fun _ => id, rfl, fun _ => id⟩
    · rw [Sched.setTcb_self, h1]
    · rw [Sched.setTcb_self, h2]
  · have h1 : (s.setTcb u b).tcb t = s.tcb t := s.setTcb_of_ne b e
    exact ⟨congrArg _ h1, congrArg _ h1, fun _ => id, rfl, fun _ => id⟩

theorem Spared.insertRunQueue {l : List Nat} (hl : t ∈ l → t ∈ s.runQueue (s.tcb u).priority) :
    Spared t s (s.insertRunQueue u l) := by
  refine ⟨rfl, rfl, fun p hm => ?_, rfl, fun _ => id⟩
  change t ∈ Function.update s.runQueue (s.tcb u).priority l p at hm
  by_cases hp : p = (s.tcb u).priority
  · rw [hp, Function.update_self] at hm
    rw [hp]
    exact hl hm
  · rwa [Function.update_of_ne hp] at hm

theorem Spared.readyHead (h : t ≠ u) : Spared t s (s.readyHead u) := by
  refine (Spared.setTcb fun e => absurd e h).trans (.insertRunQueue fun hm => ?_)
  exact (List.mem_cons.mp hm).resolve_left h

theorem Spared.readyTail (h : t ≠ u) : Spared t s (s.readyTail u) := by
  refine (Spared.setTcb fun e => absurd e h).trans (.insertRunQueue fun hm => ?_)
  rcases List.mem_append.mp hm with hm | hm
  · exact hm
  · exact absurd (List.mem_singleton.mp hm) h

theorem Spared.putBack (h : t ≠ u) (head : Bool) : Spared t s (s.putBack u head) := by
  unfold Sched.putBack
  split
  · exact .setTcb fun e => absurd e h
  · split
    · exact .readyHead h
    · exact .readyTail h

theorem Spared.waitQueue {f : WqId → Wq} (h : Spared t s s') : Spared t s { s' with waitQueue := f } :=
  ⟨h.state, h.blocking, h.queue, h.idleThread, h.curr⟩

theorem Spared.leaveWaitQueue (h : t ≠ u) (w : WqId) : Spared t s (s.leaveWaitQueue w u) :=
  .waitQueue (.setTcb fun e => absurd e h)

theorem Spared.wakeLoop (w : WqId) {l : List Nat} (h : t ∉ l) : Spared t s (Sched.wakeLoop w s l) := by
  induction l generalizing s with
  | nil => exact .refl t s
  | cons u l ih =>
    have hu : t ≠ u := fun e => h (e ▸ List.mem_cons_self)
    exact ((Spared.leaveWaitQueue hu w).trans (.readyHead hu)).trans (ih fun hm => h (List.mem_cons_of_mem _ hm))

/-- the thread that the scheduler takes is not one that is on no run queue -/
theorem Spared.getTopThread (hq : ∀ p, t ∉ s.runQueue p) (hi : t ≠ s.idleThread c) :
    Spared t s (s.getTopThread c).1 ∧ t ≠ (s.getTopThread c).2 ∧ (s.getTopThread c).1.curr = s.curr := by
  unfold Sched.getTopThread
  cases htop : s.topThread c NUM_PRIORITIES with
  | none => exact ⟨.refl t s, hi, rfl⟩
  | some pu =>
    obtain ⟨p, u⟩ := pu
    refine ⟨⟨rfl, rfl, fun p' hm => ?_, rfl, fun _ => id⟩, fun e => hq p (e ▸ topThread_mem htop), rfl⟩
    change t ∈ Function.update s.runQueue p _ p' at hm
    by_cases hp : p' = p
    · rw [hp, Function.update_self] at hm
      rw [hp]
      exact List.mem_of_mem_erase hm
    · rwa [Function.update_of_ne hp] at hm

theorem Spared.occupy (h : Spared t s s') (hu : t ≠ u) (c : Nat) :
    Spared t s { s' with curr := Function.update s.curr c u } := by
  refine ⟨h.state, h.blocking, h.queue, h.idleThread, fun d e => ?_⟩
  change Function.update s.curr c u d = t at e
  by_cases hd : d = c
  · rw [hd, Function.update_self] at e
    exact absurd e.symm hu
  · rwa [Function.update_of_ne hd] at e

theorem Spared.switchTo (h : t ≠ u) : Spared t s (s.switchTo c u) := by
  unfold Sched.switchTo
  split
  · exact .refl t s
  · refine Spared.occupy (.trans (.trans (.setTcb ?_) (.setTcb ?_)) (.setTcb ?_)) h c
    · exact fun e => absurd e h
    · exact fun _ => ⟨rfl, rfl⟩
    · exact fun e => absurd e h

theorem Spared.resched (h : Spared t s s') (hq : ∀ p, t ∉ s.runQueue p) (hi : t ≠ s.idleThread c) :
    Spared t s (s'.threadResched c) := by
  obtain ⟨h1, h2, -⟩ := Spared.getTopThread (s := s') (c := c) (fun p hm => hq p (h.queue p hm))
    (by rw [h.idleThread]; exact hi)
  rw [threadResched_eq]
  exact ((h.trans h1).trans (.setTcb fun e => absurd e h2)).trans (.switchTo h2)

theorem setTcb_state {b : Tcb} (h : t = u → b.state = (s.tcb u).state) :
    ((s.setTcb u b).tcb t).state = (s.tcb t).state := by
  by_cases e : t = u
  · rw [e, Sched.setTcb_self, h e]
  · rw [s.setTcb_of_ne b e]

/-- the thread that a CPU switches to runs -/
theorem threadResched_running (s : Sched) (c : Nat) :
    ((s.threadResched c).tcb ((s.threadResched c).curr c)).state = .running := by
  have hrun : ∀ (s : Sched) (t : Nat), (s.tcb t).state = .running →
      ((s.switchTo c t).tcb ((s.switchTo c t).curr c)).state = .running := by
    intro s t h
    unfold Sched.switchTo
    split
    · rename_i e
      rw [← e]
      exact h
    · dsimp only
      rw [Function.update_self]
      refine (setTcb_state fun _ => ?_).trans ((setTcb_state fun _ => ?_).trans ((setTcb_state fun _ => ?_).trans h))
      · rfl
      · rfl
      · rfl
  rw [threadResched_eq]
  exact hrun _ _ (congrArg Tcb.state (Sched.setTcb_self _ _ _))

/-- the CPU `d` goes on with its thread, and the vCPUs are as before -/
structure Kept (d : Nat) (s s' : Sched) : Prop where
  curr : s'.curr d = s.curr d
  vcpu : s'.vcpu = s.vcpu

theorem Kept.refl (d : Nat) (s : Sched) : Kept d s s := ⟨rfl, rfl⟩

theorem Kept.trans {d : Nat} (h : Kept d s s') (h' : Kept d s' s'') : Kept d s s'' :=
  ⟨h'.curr.trans h.curr, h'.vcpu.trans h.vcpu⟩

theorem Kept.resched {d : Nat} (h : Kept d s s') (hd : d ≠ c) : Kept d s (s'.threadResched c) := by
  have h1 : (s'.getTopThread c).1.curr = s'.curr ∧ (s'.getTopThread c).1.vcpu = s'.vcpu := by
    unfold Sched.getTopThread
    split
    · exact ⟨rfl, rfl⟩
    · exact ⟨rfl, rfl⟩
  refine h.trans ?_
  rw [threadResched_eq]
  unfold Sched.switchTo
  split
  · exact ⟨congrFun h1.1 d, h1.2⟩
  · exact ⟨(Function.update_of_ne hd _ _).trans (congrFun h1.1 d), h1.2⟩

theorem Kept.putBack (d : Nat) (s : Sched) (t : Nat) (head : Bool) : Kept d s (s.putBack t head) := by
  unfold Sched.putBack
  split
  · exact ⟨rfl, rfl⟩
  · split
    · exact ⟨rfl, rfl⟩
    · exact ⟨rfl, rfl⟩

theorem Kept.wakeLoop (d : Nat) (w : WqId) (l : List Nat) : Kept d s (Sched.wakeLoop w s l) := by
  induction l generalizing s with
  | nil => exact .refl d s
  | cons t l ih =>
    have h1 : Kept d s ((s.leaveWaitQueue w t).readyHead t) := ⟨rfl, rfl⟩
    exact h1.trans ih

theorem Kept.waitQueueWakeAll {d : Nat} (s : Sched) (w : WqId) (resched : Bool) (hd : d ≠ c) :
    Kept d s (s.waitQueueWakeAll c w resched) := by
  have h1 : Kept d s (if resched = true ∧ (s.waitQueue w).count > 0 then s.readyHead (s.curr c) else s) := by
    split
    · exact ⟨rfl, rfl⟩
    · exact .refl d s
  unfold Sched.waitQueueWakeAll
  dsimp only
  split
  · exact (h1.trans (.wakeLoop d w _)).resched hd
  · exact h1.trans (.wakeLoop d w _)

/-- another CPU goes on with its thread -/
theorem Kept.step (s : Sched) {op : SchedOp} (hp : op.Plain) {d : Nat} (hd : op.cpu ≠ some d) :
    Kept d s (schedStep s op) := by
  have hne : ∀ {c}, op.cpu = some c → d ≠ c := fun h e => hd (e ▸ h)
  cases op with
  | create u p pinned => exact ⟨rfl, rfl⟩
  | resume u =>
    show Kept d s (s.threadResume u)
    unfold Sched.threadResume
    split
    · exact ⟨rfl, rfl⟩
    · exact .refl d s
  | yield c =>
    have h1 : Kept d s (s.setTcb (s.curr c) { s.tcb (s.curr c) with remainingQuantum := 0 }) := ⟨rfl, rfl⟩
    exact Kept.resched (h1.trans (.putBack d _ _ _)) (hne rfl)
  | preempt c => exact Kept.resched (.putBack d _ _ _) (hne rfl)
  | tick c =>
    show Kept d s (s.threadTimerTick c)
    unfold Sched.threadTimerTick
    dsimp only
    split
    · exact .refl d s
    · exact ⟨rfl, rfl⟩
  | setRealTime u => exact ⟨rfl, rfl⟩
  | sleep c => exact Kept.resched ⟨rfl, rfl⟩ (hne rfl)
  | sleepHandler u => exact ⟨rfl, rfl⟩
  | setPriority c p => exact Kept.resched ⟨rfl, rfl⟩ (hne rfl)
  | waitBlock c w timeout =>
    show Kept d s (s.waitQueueBlock c w timeout)
    unfold Sched.waitQueueBlock
    split
    · exact .refl d s
    · exact Kept.resched ⟨rfl, rfl⟩ (hne rfl)
  | wakeOne c w resched =>
    show Kept d s (s.waitQueueWakeOne c w resched)
    unfold Sched.waitQueueWakeOne
    split
    · exact .refl d s
    · dsimp only
      split
      · exact Kept.resched ⟨rfl, rfl⟩ (hne rfl)
      · exact ⟨rfl, rfl⟩
  | wakeAll c w resched => exact .waitQueueWakeAll s w resched (hne rfl)
  | unblockFromWaitQueue u =>
    show Kept d s (s.threadUnblockFromWaitQueue u)
    unfold Sched.threadUnblockFromWaitQueue
    split
    · exact .refl d s
    · split
      · exact .refl d s
      · exact ⟨rfl, rfl⟩
  | exit c =>
    have h1 : Kept d s (s.setState (s.curr c) .death) := ⟨rfl, rfl⟩
    exact Kept.resched (h1.trans (.waitQueueWakeAll _ _ _ (hne rfl))) (hne rfl)
  | block _ => exact hp.elim
  | unblock _ _ _ => exact hp.elim
  | vcpuCreate _ _ _ _ => exact hp.elim
  | vcpuStart _ => exact hp.elim
  | vcpuStop _ _ => exact hp.elim
  | vcpuBlock _ _ => exact hp.elim
  | vcpuResume _ => exact hp.elim
  | vcpuPoweroff _ _ => exact hp.elim

theorem schedStep_vcpu (s : Sched) {op : SchedOp} (hp : op.Plain) : (schedStep s op).vcpu = s.vcpu := by
  cases hc : op.cpu with
  | none => exact (Kept.step s hp (d := 0) (by rw [hc]; exact fun e => by cases e)).vcpu
  | some c =>
    refine (Kept.step s hp (d := c + 1) fun e => ?_).vcpu
    rw [hc] at e
    cases e

/-- a thread that runs or is blocked, on no wait queue -/
def Fixed (b : Tcb) : Prop := (b.state = .running ∨ b.state = .blocked) ∧ b.blockingWaitQueue = none

theorem Fixed.ne_of_state (h : Fixed (s.tcb t)) (h1 : (s.tcb u).state ≠ .running) (h2 : (s.tcb u).state ≠ .blocked) :
    t ≠ u := by
  rintro rfl
  exact h.1.elim h1 h2

theorem Fixed.not_ready (h : Fixed (s.tcb t)) : (s.tcb t).state ≠ .ready := by
  intro e
  rcases h.1 with h1 | h1
  · rw [e] at h1
    cases h1
  · rw [e] at h1
    cases h1

/-- the current thread of the CPU runs, or the one it switched to -/
theorem SchedInv.running (h : SchedInv.All s) {op : SchedOp} (hp : op.Plain) (hc : op.cpu = some c)
    (hr : (s.tcb (s.curr c)).state = .running) :
    ((schedStep s op).tcb ((schedStep s op).curr c)).state = .running := by
  have hw : ∀ {w u}, u ∈ (s.waitQueue w).list → s.curr c ≠ u :=
    fun hm e => h.not_waiting (h.onCpu c _ rfl).2 _ (e ▸ hm)
  cases op with
  | yield d => cases hc; exact threadResched_running _ c
  | preempt d => cases hc; exact threadResched_running _ c
  | tick d =>
    show ((s.threadTimerTick d).tcb ((s.threadTimerTick d).curr c)).state = _
    unfold Sched.threadTimerTick
    dsimp only
    split
    · exact hr
    · exact (setTcb_state fun _ => by rfl).trans hr
  | sleep d => cases hc; exact threadResched_running _ c
  | setPriority d p => cases hc; exact threadResched_running _ c
  | waitBlock d w timeout =>
    cases hc
    show ((s.waitQueueBlock c w timeout).tcb ((s.waitQueueBlock c w timeout).curr c)).state = _
    unfold Sched.waitQueueBlock
    split
    · exact hr
    · exact threadResched_running _ c
  | wakeOne d w resched =>
    cases hc
    show ((s.waitQueueWakeOne c w resched).tcb ((s.waitQueueWakeOne c w resched).curr c)).state = _
    unfold Sched.waitQueueWakeOne
    split
    · exact hr
    · rename_i u l hl
      have hu : s.curr c ≠ u := hw (w := w) (by rw [hl]; exact List.mem_cons_self)
      dsimp only
      split
      · exact threadResched_running _ c
      · exact ((Spared.leaveWaitQueue hu w).trans (.readyHead hu)).state.trans hr
  | wakeAll d w resched =>
    cases hc
    show ((s.waitQueueWakeAll c w resched).tcb ((s.waitQueueWakeAll c w resched).curr c)).state = _
    have hl : s.curr c ∉ (s.waitQueue w).list := fun hm => hw hm rfl
    unfold Sched.waitQueueWakeAll
    dsimp only
    split
    · exact threadResched_running _ c
    · rename_i hne
      -- no thread is woken, or the caller keeps the CPU
      have hcount : ¬ (resched = true ∧ (s.waitQueue w).count > 0) := by
        rintro ⟨h1, h2⟩
        rw [h.count w] at h2
        refine hne ⟨fun e => ?_, h1⟩
        rw [e] at h2
        cases h2
      rw [if_neg hcount, (Kept.wakeLoop c w _).curr]
      exact (Spared.wakeLoop w hl).state.trans hr
  | exit d => cases hc; exact threadResched_running _ c
  | create _ _ _ => cases hc
  | resume _ => cases hc
  | setRealTime _ => cases hc
  | sleepHandler _ => cases hc
  | unblockFromWaitQueue _ => cases hc
  | block _ => exact hp.elim
  | unblock _ _ _ => exact hp.elim
  | vcpuCreate _ _ _ _ => exact hp.elim
  | vcpuStart _ => exact hp.elim
  | vcpuStop _ _ => exact hp.elim
  | vcpuBlock _ _ => exact hp.elim
  | vcpuResume _ => exact hp.elim
  | vcpuPoweroff _ _ => exact hp.elim

/-- **Other threads.**  What the current thread of a CPU does with the scheduler spares the threads that run
on the other CPUs and those that are blocked on nothing. -/
theorem SchedInv.spared (h : SchedInv.All s) {op : SchedOp} (hp : op.Plain) (he : SchedEnabled s op)
    (hg : SchedGuard s op) (ht : Fixed (s.tcb t)) (hc : ∀ c, op.cpu = some c → t ≠ s.curr c ∧ t ≠ s.idleThread c) :
    Spared t s (schedStep s op) := by
  have hq : ∀ p, t ∉ s.runQueue p := h.not_queued ht.not_ready
  have hw : ∀ {w u}, u ∈ (s.waitQueue w).list → t ≠ u := fun hm e => h.not_waiting ht.2 _ (e ▸ hm)
  cases op with
  | create u p pinned =>
    exact .waitQueue (.setTcb fun e => absurd e (ht.ne_of_state (by rw [he.1.1]; decide) (by rw [he.1.1]; decide)))
  | resume u =>
    show Spared t s (s.threadResume u)
    unfold Sched.threadResume
    split
    · rename_i hs
      exact .readyHead (ht.ne_of_state (by rw [hs]; decide) (by rw [hs]; decide))
    · exact .refl t s
  | yield c =>
    obtain ⟨h1, h2⟩ := hc c rfl
    exact ((Spared.setTcb fun e => absurd e h1).trans (.putBack h1 _)).resched hq h2
  | preempt c =>
    obtain ⟨h1, h2⟩ := hc c rfl
    exact (Spared.putBack h1 _).resched hq h2
  | tick c =>
    show Spared t s (s.threadTimerTick c)
    unfold Sched.threadTimerTick
    dsimp only
    split
    · exact .refl t s
    · exact .setTcb fun e => absurd e (hc c rfl).1
  | setRealTime u => exact .setTcb fun _ => ⟨rfl, rfl⟩
  | sleep c =>
    obtain ⟨h1, h2⟩ := hc c rfl
    have h3 : Spared t s { s with sleepTimer := Function.update s.sleepTimer (s.curr c) true } :=
      ⟨rfl, rfl, fun _ => id, rfl, fun _ => id⟩
    exact (h3.trans (.setTcb fun e => absurd e h1)).resched hq h2
  | sleepHandler u =>
    have hs : (s.tcb u).state = .sleeping := hg
    have h3 : Spared t s { s with sleepTimer := Function.update s.sleepTimer u false } :=
      ⟨rfl, rfl, fun _ => id, rfl, fun _ => id⟩
    exact h3.trans (.readyHead (ht.ne_of_state (by rw [hs]; decide) (by rw [hs]; decide)))
  | setPriority c p =>
    obtain ⟨h1, h2⟩ := hc c rfl
    exact ((Spared.setTcb fun e => absurd e h1).trans (.readyHead h1)).resched hq h2
  | waitBlock c w timeout =>
    obtain ⟨h1, h2⟩ := hc c rfl
    show Spared t s (s.waitQueueBlock c w timeout)
    unfold Sched.waitQueueBlock
    split
    · exact .refl t s
    · exact (Spared.waitQueue (.setTcb fun e => absurd e h1)).resched hq h2
  | wakeOne c w resched =>
    obtain ⟨h1, h2⟩ := hc c rfl
    show Spared t s (s.waitQueueWakeOne c w resched)
    unfold Sched.waitQueueWakeOne
    split
    · exact .refl t s
    · rename_i u l hl
      have hu : t ≠ u := hw (w := w) (by rw [hl]; exact List.mem_cons_self)
      dsimp only
      split
      · exact (((Spared.leaveWaitQueue hu w).trans (.readyHead h1)).trans (.readyHead hu)).resched hq h2
      · exact (Spared.leaveWaitQueue hu w).trans (.readyHead hu)
  | wakeAll c w resched =>
    obtain ⟨h1, h2⟩ := hc c rfl
    have hl : t ∉ (s.waitQueue w).list := fun hm => hw hm rfl
    have h3 : Spared t s (if resched = true ∧ (s.waitQueue w).count > 0 then s.readyHead (s.curr c) else s) := by
      split
      · exact .readyHead h1
      · exact .refl t s
    show Spared t s (s.waitQueueWakeAll c w resched)
    unfold Sched.waitQueueWakeAll
    dsimp only
    split
    · exact (h3.trans (.wakeLoop w hl)).resched hq h2
    · exact h3.trans (.wakeLoop w hl)
  | unblockFromWaitQueue u =>
    show Spared t s (s.threadUnblockFromWaitQueue u)
    unfold Sched.threadUnblockFromWaitQueue
    split
    · exact .refl t s
    · split
      · exact .refl t s
      · rename_i w hu
        have hne : t ≠ u := hw ((h.waiting w u).mpr hu)
        exact (Spared.leaveWaitQueue hne w).trans (.readyHead hne)
  | exit c =>
    obtain ⟨h1, h2⟩ := hc c rfl
    have hl : t ∉ (s.waitQueue (.retcode (s.curr c))).list := fun hm => hw hm rfl
    show Spared t s (s.threadExit c)
    unfold Sched.threadExit Sched.waitQueueWakeAll
    dsimp only
    rw [if_neg fun e => absurd e.2 (by decide), if_neg fun e => absurd e.1 (by decide)]
    exact ((Spared.setTcb fun e => absurd e h1).trans (.wakeLoop _ hl)).resched hq h2
  | block _ => exact hp.elim
  | unblock _ _ _ => exact hp.elim
  | vcpuCreate _ _ _ _ => exact hp.elim
  | vcpuStart _ => exact hp.elim
  | vcpuStop _ _ => exact hp.elim
  | vcpuBlock _ _ => exact hp.elim
  | vcpuResume _ => exact hp.elim
  | vcpuPoweroff _ _ => exact hp.elim

end

/-! ## the CPUs' vCPUs -/

section
variable {cfg : VgicConfig} {w w' : Wake} {c : Nat} {v : VcpuId}

theorem syncIrqFromLrs_vcpu (cfg : VgicConfig) (s : Vgic) (c : Nat) (v : VcpuId) :
    (s.syncIrqFromLrs cfg c v).vcpu = s.vcpu := by
  have hstep : ∀ (s : Vgic) (x : VirqId), (s.syncVirq cfg c x).vcpu = s.vcpu := by
    intro s x
    unfold Vgic.syncVirq
    split
    · rfl
    · dsimp only
      split
      · rfl
      · split
        all_goals rfl
  unfold Vgic.syncIrqFromLrs
  induction s.lrHead v generalizing s with
  | nil => rfl
  | cons x xs ih => exact (ih _).trans (hstep s x)

theorem lrWrite_vcpu (cfg : VgicConfig) (s : Vgic) (c : Nat) (x : VirqId) (k : Nat) (val : GicLr) :
    (s.lrWrite cfg c x k val).vcpu = s.vcpu := by
  unfold Vgic.lrWrite
  split
  · rfl
  · rfl

theorem moveToLrLst_vcpu (s : Vgic) (v : VcpuId) (x : VirqId) : (s.moveToLrLst v x).vcpu = s.vcpu := by
  unfold Vgic.moveToLrLst
  dsimp only
  split
  · rfl
  · rfl

theorem flushVirq_vcpu (cfg : VgicConfig) (c : Nat) (v : VcpuId) (s : Vgic) (x : VirqId) :
    (s.flushVirq cfg c v x).1.vcpu = s.vcpu := by
  have hupdate : (s.vgicUpdateLr cfg c x).vcpu = s.vcpu := by
    unfold Vgic.vgicUpdateLr
    dsimp only
    split
    · exact lrWrite_vcpu cfg s c x _ _
    · rfl
  unfold Vgic.flushVirq
  split
  · dsimp only
    split
    · rfl
    · exact (moveToLrLst_vcpu _ v x).trans (lrWrite_vcpu cfg _ c x _ _)
  split
  · dsimp only
    split
    · rfl
    · exact (moveToLrLst_vcpu _ v x).trans (lrWrite_vcpu cfg _ c x _ _)
  split
  · exact (moveToLrLst_vcpu _ v x).trans hupdate
  · exact (moveToLrLst_vcpu _ v x).trans (lrWrite_vcpu cfg s c x _ _)
  · rfl

theorem flushQueuedVirqs_vcpu (cfg : VgicConfig) (s : Vgic) (c : Nat) (v : VcpuId) :
    (s.flushQueuedVirqs cfg c v).vcpu = s.vcpu := by
  unfold Vgic.flushQueuedVirqs
  exact Vgic.flushLoop_rule (I := fun t => t.vcpu = s.vcpu)
    (fun t x h => (flushVirq_vcpu cfg c v t x).trans h) _ rfl

theorem hvVirqToLrs_vcpu (cfg : VgicConfig) (s : Vgic) (c : Nat) : (Wake.hvVirqToLrs cfg s c).vcpu = s.vcpu := by
  unfold Wake.hvVirqToLrs
  split
  · rfl
  · exact flushQueuedVirqs_vcpu cfg s c _

theorem hvVirqFromLrs_vcpu (cfg : VgicConfig) (s : Vgic) (c : Nat) : (Wake.hvVirqFromLrs cfg s c).vcpu = s.vcpu := by
  unfold Wake.hvVirqFromLrs
  split
  · rfl
  · exact syncIrqFromLrs_vcpu cfg s c _

theorem vcpuSwitchTo_vcpu (cfg : VgicConfig) (s : Vgic) (c : Nat) (v : VcpuId) :
    (s.vcpuSwitchTo cfg c v).vcpu = Function.update s.vcpu c (some v) := by
  unfold Vgic.vcpuSwitchTo
  split
  · rename_i h
    rw [← h, Function.update_eq_self]
  · cases s.vcpu c with
    | none => rfl
    | some u => rfl

/-! ## the invariant -/

structure WakeInv (w : Wake) : Prop where
  sched : SchedInv.All w.sched
  /-- `VCPU_RUNNING` is never set -/
  status : ∀ v, (w.sched.vcpu v).status = .ready ∨ (w.sched.vcpu v).status = .blocked ∨
    (w.sched.vcpu v).status = .destroy
  vcpu : ∀ t v, w.vcpu t = some v ↔ (w.sched.vcpu v).thread = t ∧ (w.sched.vcpu v).status ≠ .destroy
  /-- `VCPU_FLAGS_SET` sets no flag -/
  flags : ∀ v, w.flags v = 0
  kicked : ∀ c, w.kicked c = false
  running : ∀ c, w.mode c ≠ .stopping → (w.sched.tcb (w.sched.curr c)).state = .running
  /-- the thread of a suspended vCPU stays blocked -/
  asleep : ∀ v, (w.sched.vcpu v).status = .blocked → (w.sched.tcb (w.sched.vcpu v).thread).state = .blocked ∧
    (w.sched.tcb (w.sched.vcpu v).thread).blockingWaitQueue = none
  loaded : ∀ c v, w.current c = some v → w.isInited v = true → w.gic.vcpu c = some v
  entered : ∀ c, w.mode c ≠ .host → ∃ v, w.current c = some v ∧ w.isInited v = true

theorem WakeInv.boot (h : WakeBoot cfg w) : WakeInv w where
  sched := h.sched
  status v := (h.status v).imp id .inr
  vcpu := h.vcpu
  flags := h.flags
  kicked := h.kicked
  running c _ := h.running c
  asleep v e := by
    rcases h.status v with hs | hs
    · rw [e] at hs
      cases hs
    · rw [e] at hs
      cases hs
  loaded c v _ hi := by
    rw [h.isInited] at hi
    cases hi
  entered c hm := absurd (h.mode c) hm

/-- a suspended vCPU is on no CPU but one that is about to block -/
theorem WakeInv.not_asleep (h : WakeInv w) (hm : w.mode c ≠ .stopping) (hc : w.current c = some v) :
    (w.sched.vcpu v).status ≠ .blocked := by
  intro e
  have h1 := (h.asleep v e).1
  rw [((h.vcpu _ v).mp hc).1, h.running c hm] at h1
  cases h1

/-- **What an injection does**: it queues the interrupt, and no more. -/
theorem WakeInv.inject (h : WakeInv w) (c : Nat) (v : VcpuId) (x : VirqId) :
    ∃ g, (w.hvVcpuInjectVirq c v x).1 = { w with gic := g } ∧ g.vcpu = w.gic.vcpu ∧
      ((w.gic.irqs x).enable = true → (w.hvVcpuInjectVirq c v x).2 = 0) := by
  unfold Wake.hvVcpuInjectVirq
  split
  · rename_i he
    exact ⟨w.gic, rfl, rfl, fun e => absurd e he⟩
  split
  · rename_i hs
    rcases h.status v with h1 | h1 | h1
    all_goals rw [hs] at h1; cases h1
  split
  · exact ⟨w.gic, rfl, rfl, fun _ => rfl⟩
  have hrun : (w.sched.vcpu v).status ≠ .running := by
    intro e
    rcases h.status v with h1 | h1 | h1
    all_goals rw [e] at h1; cases h1
  have hlow : w.isVcpuLowpower v = false := by
    unfold Wake.isVcpuLowpower
    rw [h.flags]
    rfl
  dsimp only
  rw [if_neg fun e => hrun e.1, if_neg]
  · exact ⟨_, rfl, (Vgic.LrSame.insertIntoPdlist w.gic x v).vcpu, fun _ => rfl⟩
  · intro e
    exact absurd (hlow.symm.trans e) (by decide)

theorem WakeInv.setGic (h : WakeInv w) {g : Vgic} (hg : g.vcpu = w.gic.vcpu) : WakeInv { w with gic := g } :=
  ⟨h.sched, h.status, h.vcpu, h.flags, h.kicked, h.running, h.asleep,
    fun c v hc hi => (congrFun hg c).trans (h.loaded c v hc hi), h.entered⟩

theorem WakeInv.setMode (h : WakeInv w) {m : CpuMode} (h1 : w.mode c ≠ .stopping)
    (h2 : m ≠ .host → ∃ v, w.current c = some v ∧ w.isInited v = true) : WakeInv (w.setMode c m) := by
  refine ⟨h.sched, h.status, h.vcpu, h.flags, h.kicked, fun d hd => ?_, h.asleep, h.loaded, fun d hd => ?_⟩
  · by_cases hdc : d = c
    · rw [hdc]
      exact h.running c h1
    · change Function.update w.mode c m d ≠ _ at hd
      rw [Function.update_of_ne hdc] at hd
      exact h.running d hd
  · change Function.update w.mode c m d ≠ _ at hd
    by_cases hdc : d = c
    · rw [hdc, Function.update_self] at hd
      rw [hdc]
      exact h2 hd
    · rw [Function.update_of_ne hdc] at hd
      exact h.entered d hd

theorem WakeInv.fixed_curr (h : WakeInv w) (c : Nat) : Fixed (w.sched.tcb (w.sched.curr c)) := h.sched.onCpu c _ rfl

theorem WakeInv.fixed_asleep (h : WakeInv w) (hs : (w.sched.vcpu v).status = .blocked) :
    Fixed (w.sched.tcb (w.sched.vcpu v).thread) :=
  ⟨.inr (h.asleep v hs).1, (h.asleep v hs).2⟩

/-- the threads of the other CPUs, as one CPU's scheduler sees them -/
theorem WakeInv.other (h : WakeInv w) {d : Nat} (hd : d ≠ c) :
    w.sched.curr d ≠ w.sched.curr c ∧ w.sched.curr d ≠ w.sched.idleThread c :=
  ⟨fun e => hd (h.sched.curInj d c _ rfl (congrArg some e.symm)), fun e => hd (h.sched.idleCur c d (congrArg some e))⟩

theorem WakeInv.asleep_ne_idle (h : WakeInv w) (hs : (w.sched.vcpu v).status = .blocked) :
    (w.sched.vcpu v).thread ≠ w.sched.idleThread c := by
  intro e
  have h1 := h.sched.vcpu v (by rw [hs]; decide)
  rw [e, h.sched.idleThread c] at h1
  cases h1

/-- **The scheduler ran on a CPU**: it kept the other CPUs' threads and the suspended vCPUs. -/
theorem WakeInv.schedule (h : WakeInv w) {s : Sched} (hs : SchedInv.All s) (hv : s.vcpu = w.sched.vcpu)
    (hc : ∀ d, d ≠ c → s.curr d = w.sched.curr d) (hrun : (s.tcb (s.curr c)).state = .running)
    (hsp : ∀ d, d ≠ c → Spared (w.sched.curr d) w.sched s)
    (hsl : ∀ v, (w.sched.vcpu v).status = .blocked → Spared (w.sched.vcpu v).thread w.sched s) :
    WakeInv ((w.schedule cfg c s).setMode c .host) := by
  have hmode : ∀ {d}, d ≠ c → ((w.schedule cfg c s).setMode c .host).mode d = w.mode d :=
    fun hd => Function.update_of_ne hd _ _
  refine ⟨hs, ?_, ?_, h.flags, h.kicked, fun d hd => ?_, fun v he => ?_, fun d v hd hi => ?_, fun d hd => ?_⟩
  · show ∀ v, (s.vcpu v).status = .ready ∨ (s.vcpu v).status = .blocked ∨ (s.vcpu v).status = .destroy
    rw [hv]
    exact h.status
  · show ∀ t v, w.vcpu t = some v ↔ (s.vcpu v).thread = t ∧ (s.vcpu v).status ≠ .destroy
    rw [hv]
    exact h.vcpu
  · show (s.tcb (s.curr d)).state = _
    by_cases hdc : d = c
    · rw [hdc]
      exact hrun
    · rw [hmode hdc] at hd
      rw [hc d hdc, (hsp d hdc).state]
      exact h.running d hd
  · change (s.vcpu v).status = _ at he
    show (s.tcb (s.vcpu v).thread).state = .blocked ∧ (s.tcb (s.vcpu v).thread).blockingWaitQueue = none
    rw [hv] at he ⊢
    obtain ⟨h1, h2⟩ := h.asleep v he
    exact ⟨(hsl v he).state.trans h1, (hsl v he).blocking.trans h2⟩
  · change w.vcpu (s.curr d) = some v at hd
    change w.isInited v = true at hi
    show (if s.curr c = w.sched.curr c then w.gic else _ : Vgic).vcpu d = some v
    by_cases hdc : d = c
    · subst hdc
      split
      · rename_i e
        exact h.loaded d v ((congrArg w.vcpu e).symm.trans hd) hi
      · rw [hd]
        dsimp only
        rw [if_pos hi, vcpuSwitchTo_vcpu, Function.update_self]
    · have hl : w.gic.vcpu d = some v := h.loaded d v ((congrArg w.vcpu (hc d hdc)).symm.trans hd) hi
      split
      · exact hl
      · split
        · exact hl
        · split
          · rw [vcpuSwitchTo_vcpu, Function.update_of_ne hdc]
            exact hl
          · exact hl
  · by_cases hdc : d = c
    · rw [hdc] at hd
      exact absurd (Function.update_self _ _ _) hd
    · rw [hmode hdc] at hd
      obtain ⟨v, h1, h2⟩ := h.entered d hd
      exact ⟨v, (congrArg w.vcpu (hc d hdc)).trans h1, h2⟩

/-- the scheduler's functions, in the hypervisor's code -/
theorem WakeInv.plain (h : WakeInv w) {op : SchedOp} (he : WakeEnabled w (.sched op)) :
    WakeInv (wakeStep cfg w (.sched op)) := by
  obtain ⟨hp, he, hg, hm⟩ := he
  have hs := h.sched.step hg he
  have hv := schedStep_vcpu w.sched hp
  show WakeInv (match op.cpu with | none => _ | some c => _)
  cases hc : op.cpu with
  | none =>
    have hno : ∀ {t}, ∀ c, op.cpu = some c → t ≠ w.sched.curr c ∧ t ≠ w.sched.idleThread c := by
      intro t c e
      rw [hc] at e
      cases e
    have hcurr : (schedStep w.sched op).curr = w.sched.curr := by
      funext d
      exact (Kept.step w.sched hp (by rw [hc]; exact fun e => by cases e)).curr
    refine ⟨hs, ?_, ?_, h.flags, h.kicked, fun d hd => ?_, fun v e => ?_, fun d v hd => ?_, fun d hd => ?_⟩
    · show ∀ v, ((schedStep w.sched op).vcpu v).status = .ready ∨ ((schedStep w.sched op).vcpu v).status = .blocked ∨
        ((schedStep w.sched op).vcpu v).status = .destroy
      rw [hv]
      exact h.status
    · show ∀ t v, w.vcpu t = some v ↔ ((schedStep w.sched op).vcpu v).thread = t ∧
        ((schedStep w.sched op).vcpu v).status ≠ .destroy
      rw [hv]
      exact h.vcpu
    · show ((schedStep w.sched op).tcb ((schedStep w.sched op).curr d)).state = _
      rw [hcurr, (h.sched.spared hp he hg (h.fixed_curr d) hno).state]
      exact h.running d hd
    · change ((schedStep w.sched op).vcpu v).status = _ at e
      show ((schedStep w.sched op).tcb ((schedStep w.sched op).vcpu v).thread).state = .blocked ∧
        ((schedStep w.sched op).tcb ((schedStep w.sched op).vcpu v).thread).blockingWaitQueue = none
      rw [hv] at e ⊢
      have h1 := h.sched.spared hp he hg (h.fixed_asleep e) hno
      exact ⟨h1.state.trans (h.asleep v e).1, h1.blocking.trans (h.asleep v e).2⟩
    · change w.vcpu ((schedStep w.sched op).curr d) = some v at hd
      rw [hcurr] at hd
      exact h.loaded d v hd
    · obtain ⟨v, h1, h2⟩ := h.entered d hd
      refine ⟨v, ?_, h2⟩
      show w.vcpu ((schedStep w.sched op).curr d) = some v
      rw [hcurr]
      exact h1
  | some c =>
    have hmc := hm c hc
    have honly : ∀ {t}, t ≠ w.sched.curr c ∧ t ≠ w.sched.idleThread c →
        ∀ d, op.cpu = some d → t ≠ w.sched.curr d ∧ t ≠ w.sched.idleThread d := by
      intro t ht d e
      rw [hc] at e
      cases e
      exact ht
    have hnot : w.mode c ≠ .stopping := by rw [hmc]; decide
    have hsame : (w.schedule cfg c (schedStep w.sched op)).setMode c .host
        = w.schedule cfg c (schedStep w.sched op) := by
      show ({ w.schedule cfg c (schedStep w.sched op) with mode := Function.update w.mode c .host } : Wake) = _
      rw [← hmc, Function.update_eq_self]
      rfl
    dsimp only
    rw [← hsame]
    refine h.schedule hs hv (fun d hd => ?_) (h.sched.running hp hc (h.running c hnot)) (fun d hd => ?_) fun v e => ?_
    · exact (Kept.step w.sched hp (by rw [hc]; exact fun e => hd (Option.some.inj e).symm)).curr
    · exact h.sched.spared hp he hg (h.fixed_curr d) (honly (h.other hd))
    · refine h.sched.spared hp he hg (h.fixed_asleep e) (honly ⟨fun e1 => ?_, h.asleep_ne_idle e⟩)
      have h1 := (h.asleep v e).1
      rw [e1, h.running c hnot] at h1
      cases h1

/-- the `thread_block` of CPU_SUSPEND -/
theorem WakeInv.suspendBlock (h : WakeInv w) : WakeInv (wakeStep cfg w (.suspendBlock c)) := by
  have hq : ∀ {t}, Fixed (w.sched.tcb t) → ∀ p, t ∉ w.sched.runQueue p := fun ht => h.sched.not_queued ht.not_ready
  refine h.schedule (h.sched.threadBlock c) ?_ (fun d hd => ?_) (threadResched_running _ c) (fun d hd => ?_)
    fun v e => ?_
  · exact (Kept.resched (.refl (c + 1) w.sched) (Nat.succ_ne_self c)).vcpu
  · exact (Kept.resched (.refl d w.sched) hd).curr
  · exact Spared.resched (.refl _ _) (hq (h.fixed_curr d)) (h.other hd).2
  · exact Spared.resched (.refl _ _) (hq (h.fixed_asleep e)) (h.asleep_ne_idle e)

/-- what `hv_vcpu_stop` does to the vCPU of the current thread -/
theorem WakeInv.hvVcpuStop (h : WakeInv w) (hm : w.mode c = .host) (hc : w.current c = some v) :
    w.sched.hvVcpuStop c v = (w.sched, false) ∨
      w.sched.hvVcpuStop c v = ((w.sched.setStatus v .blocked).setState (w.sched.curr c) .blocked, true) := by
  have hthread := ((h.vcpu _ v).mp hc).1
  have hrun : (((w.sched.setStatus v .blocked)).tcb (w.sched.vcpu v).thread).state = .running := by
    rw [hthread]
    exact h.running c (by rw [hm]; decide)
  unfold Sched.hvVcpuStop
  rw [if_neg (h.not_asleep (by rw [hm]; decide) hc)]
  split
  · exact .inl rfl
  · split
    · refine .inr ?_
      unfold Sched.stopCurrentCpuThread
      rw [hrun, hthread]
    · exact .inl rfl

/-- the `hv_vcpu_stop` of CPU_SUSPEND -/
theorem WakeInv.suspend (h : WakeInv w) (he : w.Traps c) : WakeInv (wakeStep cfg w (.suspend c)) := by
  obtain ⟨hm, v, hc, hi⟩ := he
  obtain ⟨hthread, hd⟩ := (h.vcpu _ v).mp hc
  have hs := h.sched.hvVcpuStop c v hd
  show WakeInv (match w.gic.vcpu c with | none => _ | some v => _)
  rw [h.loaded c v hc hi]
  dsimp only
  rcases h.hvVcpuStop hm hc with e | e
  · rw [e]
    exact h
  rw [e] at hs ⊢
  rw [if_pos rfl]
  have hvcpu : ∀ u, ((w.sched.setStatus v .blocked).vcpu u).thread = (w.sched.vcpu u).thread ∧
      (((w.sched.setStatus v .blocked).vcpu u).status = .blocked ∧ u = v ∨
        ((w.sched.setStatus v .blocked).vcpu u).status = (w.sched.vcpu u).status ∧ u ≠ v) := by
    intro u
    by_cases huv : u = v
    · subst huv
      have h1 : (w.sched.setStatus u .blocked).vcpu u = { w.sched.vcpu u with status := .blocked } :=
        Function.update_self _ _ _
      exact ⟨by rw [h1], .inl ⟨by rw [h1], rfl⟩⟩
    · have h1 : (w.sched.setStatus v .blocked).vcpu u = w.sched.vcpu u := Function.update_of_ne huv _ _
      exact ⟨congrArg SchedVcpu.thread h1, .inr ⟨congrArg SchedVcpu.status h1, huv⟩⟩
  refine ⟨hs, fun u => ?_, fun t u => ?_, h.flags, h.kicked, fun d hdm => ?_, fun u hu => ?_, h.loaded, fun d hdm => ?_⟩
  · show ((w.sched.setStatus v .blocked).vcpu u).status = .ready ∨ ((w.sched.setStatus v .blocked).vcpu u).status =
      .blocked ∨ ((w.sched.setStatus v .blocked).vcpu u).status = .destroy
    rcases (hvcpu u).2 with ⟨h1, -⟩ | ⟨h1, -⟩
    · exact .inr (.inl h1)
    · rw [h1]
      exact h.status u
  · show w.vcpu t = some u ↔ ((w.sched.setStatus v .blocked).vcpu u).thread = t ∧
      ((w.sched.setStatus v .blocked).vcpu u).status ≠ .destroy
    rw [(hvcpu u).1, h.vcpu]
    rcases (hvcpu u).2 with ⟨h1, rfl⟩ | ⟨h1, -⟩
    · rw [h1]
      exact ⟨fun h2 => ⟨h2.1, by decide⟩, fun h2 => ⟨h2.1, hd⟩⟩
    · rw [h1]
  · show (((w.sched.setStatus v .blocked).setState (w.sched.curr c) .blocked).tcb (w.sched.curr d)).state = _
    change Function.update w.mode c .stopping d ≠ _ at hdm
    by_cases hdc : d = c
    · rw [hdc, Function.update_self] at hdm
      exact absurd rfl hdm
    · rw [Function.update_of_ne hdc] at hdm
      exact (congrArg Tcb.state (Sched.setTcb_of_ne _ _ (h.other hdc).1)).trans (h.running d hdm)
  · change ((w.sched.setStatus v .blocked).vcpu u).status = _ at hu
    show (((w.sched.setStatus v .blocked).setState (w.sched.curr c) .blocked).tcb
      ((w.sched.setStatus v .blocked).vcpu u).thread).state = .blocked ∧ (((w.sched.setStatus v .blocked).setState
        (w.sched.curr c) .blocked).tcb ((w.sched.setStatus v .blocked).vcpu u).thread).blockingWaitQueue = none
    rw [(hvcpu u).1]
    rcases (hvcpu u).2 with ⟨-, rfl⟩ | ⟨h1, huv⟩
    · rw [hthread, Sched.setState, Sched.setTcb_self]
      exact ⟨rfl, (h.fixed_curr c).2⟩
    · rw [h1] at hu
      have hne : (w.sched.vcpu u).thread ≠ w.sched.curr c := by
        intro e1
        have h2 := (h.vcpu _ u).mpr ⟨e1, by rw [hu]; decide⟩
        exact huv (Option.some.inj (h2.symm.trans hc))
      rw [Sched.setState, Sched.setTcb_of_ne _ _ hne]
      exact h.asleep u hu
  · change Function.update w.mode c .stopping d ≠ _ at hdm
    by_cases hdc : d = c
    · rw [hdc]
      exact ⟨v, hc, hi⟩
    · rw [Function.update_of_ne hdc] at hdm
      exact h.entered d hdm

/-- the first entry -/
theorem WakeInv.launch (h : WakeInv w) (he : WakeEnabled w (.launch c)) : WakeInv (wakeStep cfg w (.launch c)) := by
  obtain ⟨hm, v, hc, -⟩ := he
  show WakeInv (match w.current c with | none => _ | some v => _)
  rw [hc]
  dsimp only
  have h1 : WakeInv (w.vcpuStartCommon cfg c v) := by
    refine ⟨h.sched, h.status, h.vcpu, h.flags, h.kicked, h.running, h.asleep, fun d u hd hu => ?_, fun d hd => ?_⟩
    · show ((w.gic.irqInit v).vcpuSwitchTo cfg c v).vcpu d = some u
      rw [vcpuSwitchTo_vcpu]
      change w.current d = some u at hd
      by_cases hdc : d = c
      · rw [hdc, Function.update_self]
        rw [hdc, hc] at hd
        exact hd
      · rw [Function.update_of_ne hdc]
        refine h.loaded d u hd ?_
        change Function.update w.isInited v true u = true at hu
        rwa [Function.update_of_ne] at hu
        intro e1
        have h2 := ((h.vcpu _ u).mp hd).1
        rw [e1, ((h.vcpu _ v).mp hc).1] at h2
        exact (h.other hdc).1 h2.symm
    · obtain ⟨u, h1, h2⟩ := h.entered d hd
      refine ⟨u, h1, ?_⟩
      show Function.update w.isInited v true u = true
      by_cases huv : u = v
      · rw [huv, Function.update_self]
      · rw [Function.update_of_ne huv]
        exact h2
  refine h1.setMode ?_ fun _ => ⟨v, hc, Function.update_self _ _ _⟩
  show w.mode c ≠ .stopping
  rw [hm]
  decide

theorem WakeInv.step (cfg : VgicConfig) (h : WakeInv w) {op : WakeOp} (he : WakeEnabled w op) : WakeInv (wakeStep cfg w op) := by
  cases op with
  | inject c v x =>
    obtain ⟨g, h1, h2, -⟩ := h.inject c v x
    show WakeInv (w.hvVcpuInjectVirq c v x).1
    rw [h1]
    exact h.setGic h2
  | enable x enable => exact h.setGic (Vgic.LrSame.virqEnable w.gic x enable).vcpu
  | launch c => exact h.launch he
  | exit c =>
    have h1 := h.setGic (hvVirqFromLrs_vcpu cfg w.gic c)
    have h2 : WakeInv { w with
        gic := Wake.hvVirqFromLrs cfg w.gic c, kicked := Function.update w.kicked c false } := by
      refine ⟨h1.sched, h1.status, h1.vcpu, h1.flags, fun d => ?_, h1.running, h1.asleep, h1.loaded, h1.entered⟩
      show Function.update w.kicked c false d = false
      by_cases hd : d = c
      · rw [hd, Function.update_self]
      · rw [Function.update_of_ne hd]
        exact h.kicked d
    have hm : w.mode c = .guest := he
    refine h2.setMode ?_ fun e => absurd rfl e
    show w.mode c ≠ .stopping
    rw [hm]
    decide
  | flush c =>
    have h1 := h.setGic (hvVirqToLrs_vcpu cfg w.gic c)
    refine h1.setMode ?_ fun _ => he.2
    show w.mode c ≠ .stopping
    rw [he.1]
    decide
  | enter c =>
    have hm : w.mode c = .flushed := he
    exact h.setMode (by rw [hm]; decide) fun _ => h.entered c (by rw [hm]; decide)
  | irq c => exact h.setGic ((hvVirqToLrs_vcpu cfg _ c).trans (hvVirqFromLrs_vcpu cfg w.gic c))
  | suspend c => exact h.suspend he
  | suspendBlock c => exact h.suspendBlock
  | suspendFlags c =>
    show WakeInv (match w.gic.vcpu c with | none => _ | some v => _)
    split
    · exact h
    · rename_i v _
      refine ⟨h.sched, h.status, h.vcpu, fun u => ?_, h.kicked, h.running, h.asleep, h.loaded, h.entered⟩
      show Function.update w.flags v (w.flags v &&& VCPU_FLAGS_EVENT) u = 0
      by_cases huv : u = v
      · rw [huv, Function.update_self, h.flags]
        rfl
      · rw [Function.update_of_ne huv]
        exact h.flags u
  | sched op => exact h.plain he

/-! ## the flush comes first -/

/-- the CPU is in the hypervisor's code, and the others go on with their threads in their modes -/
theorem InHost.of (hv : InHost w v) (hm : w'.mode c = .host ∨ w'.mode c = .stopping)
    (hd : ∀ d, d ≠ c → w'.current d = w.current d ∧ w'.mode d = w.mode d) : InHost w' v := by
  intro d hc
  by_cases hdc : d = c
  · rw [hdc]
    exact hm
  · rw [(hd d hdc).1] at hc
    rw [(hd d hdc).2]
    exact hv d hc

/-- the CPU's vCPU is another one -/
theorem InHost.setMode (hv : InHost w v) {m : CpuMode} (hc : w.current c ≠ some v) : InHost (w.setMode c m) v := by
  intro d hd
  change w.current d = some v at hd
  have hdc : d ≠ c := fun e => hc (e ▸ hd)
  show Function.update w.mode c m d = _ ∨ Function.update w.mode c m d = _
  rw [Function.update_of_ne hdc]
  exact hv d hd

/-- a step that is no flush by the vCPU does not let it near the guest -/
theorem InHost.step (h : WakeInv w) (hi : w.isInited v = true) (hv : InHost w v) {op : WakeOp}
    (he : WakeEnabled w op) (hno : ¬ Flushes w op v) :
    (wakeStep cfg w op).isInited v = true ∧ InHost (wakeStep cfg w op) v := by
  have hupd : ∀ {m c d}, d ≠ c → (w.setMode c m).mode d = w.mode d := fun hd => Function.update_of_ne hd _ _
  cases op with
  | inject c u x =>
    obtain ⟨g, h1, -⟩ := h.inject c u x
    show (w.hvVcpuInjectVirq c u x).1.isInited v = true ∧ InHost (w.hvVcpuInjectVirq c u x).1 v
    rw [h1]
    exact ⟨hi, hv⟩
  | enable x enable => exact ⟨hi, hv⟩
  | launch c =>
    obtain ⟨-, u, hu, hiu⟩ := he
    have huv : u ≠ v := by
      rintro rfl
      rw [hi] at hiu
      cases hiu
    show Wake.isInited (match w.current c with | none => _ | some v => _) v = true ∧
      InHost (match w.current c with | none => _ | some v => _) v
    rw [hu]
    have hv' : InHost (w.vcpuStartCommon cfg c u) v := hv
    refine ⟨(Function.update_of_ne huv.symm _ _).trans hi, hv'.setMode ?_⟩
    show w.current c ≠ some v
    rw [hu]
    exact fun e => huv (Option.some.inj e)
  | exit c => exact ⟨hi, hv.of (c := c) (.inl (Function.update_self _ _ _)) fun d hd => ⟨rfl, hupd hd⟩⟩
  | flush c =>
    obtain ⟨-, u, hu, hiu⟩ := he
    have hv' : InHost { w with gic := Wake.hvVirqToLrs cfg w.gic c } v := hv
    refine ⟨hi, hv'.setMode fun e => hno ⟨c, rfl, h.loaded c v e hi, e⟩⟩
  | enter c =>
    have hm : w.mode c = .flushed := he
    refine ⟨hi, hv.setMode fun e => ?_⟩
    rcases hv c e with h1 | h1
    all_goals rw [hm] at h1; cases h1
  | irq c => exact ⟨hi, hv⟩
  | suspend c =>
    show Wake.isInited (match w.gic.vcpu c with | none => _ | some v => _) v = true ∧
      InHost (match w.gic.vcpu c with | none => _ | some v => _) v
    obtain ⟨hm, u, hu, hiu⟩ := he
    rw [h.loaded c u hu hiu]
    dsimp only
    rcases h.hvVcpuStop hm hu with e | e
    · rw [e]
      exact ⟨hi, hv⟩
    · rw [e, if_pos rfl]
      exact ⟨hi, hv.of (c := c) (.inr (Function.update_self _ _ _)) fun d hd => ⟨rfl, hupd hd⟩⟩
  | suspendBlock c =>
    refine ⟨hi, hv.of (c := c) (.inl (Function.update_self _ _ _)) fun d hd => ⟨?_, hupd hd⟩⟩
    exact congrArg w.vcpu (Kept.resched (.refl d w.sched) hd).curr
  | suspendFlags c =>
    show Wake.isInited (match w.gic.vcpu c with | none => _ | some v => _) v = true ∧
      InHost (match w.gic.vcpu c with | none => _ | some v => _) v
    split
    · exact ⟨hi, hv⟩
    · exact ⟨hi, hv⟩
  | sched op =>
    obtain ⟨hp, -, -, hm⟩ := he
    show Wake.isInited (match op.cpu with | none => _ | some c => _) v = true ∧
      InHost (match op.cpu with | none => _ | some c => _) v
    cases hc : op.cpu with
    | none =>
      refine ⟨hi, fun d hd => hv d ?_⟩
      exact (congrArg w.vcpu (Kept.step w.sched hp (by rw [hc]; exact fun e => by cases e)).curr).symm.trans hd
    | some c =>
      refine ⟨hi, hv.of (c := c) (.inl (hm c hc)) fun d hd => ⟨?_, rfl⟩⟩
      exact congrArg w.vcpu (Kept.step w.sched hp (by rw [hc]; exact fun e => hd (Option.some.inj e).symm)).curr

/-- **The flush comes first** for a vCPU that the hypervisor's code runs for. -/
theorem flushFirst (h : WakeInv w) (hi : w.isInited v = true) (hv : InHost w v) : FlushFirst cfg w v := by
  intro w' hp
  have hinv : WakeInv w' ∧ w'.isInited v = true ∧ InHost w' v := by
    refine hp.invariant (I := fun w => WakeInv w ∧ w.isInited v = true ∧ InHost w v) ?_ ⟨h, hi, hv⟩
    rintro w op w' ⟨h1, h2, h3⟩ hno ⟨he, rfl⟩
    exact ⟨h1.step cfg he, InHost.step h1 h2 h3 he hno⟩
  rintro ⟨c, hc, hm⟩
  rcases hinv.2.2 c hc with h1 | h1
  all_goals rw [hm] at h1; cases h1

/-- a vCPU that is in the guest, or about to enter it, does not flush first -/
theorem FlushFirst.inHost (h : FlushFirst cfg w v) : InHost w v := by
  intro c hc
  cases hm : w.mode c with
  | host => exact .inl rfl
  | stopping => exact .inr rfl
  | flushed =>
    have hp : (wakeSys cfg).Path (fun w op => ¬ Flushes w op v) w (w.setMode c .guest) := by
      refine .step (a := .enter c) (.refl w) ?_ ⟨hm, rfl⟩
      rintro ⟨d, e, -⟩
      cases e
    exact absurd ⟨c, hc, Function.update_self _ _ _⟩ (h _ hp)
  | guest => exact absurd ⟨c, hc, hm⟩ (h w (.refl w))

/-- a vCPU that is about to be launched does not flush first -/
theorem FlushFirst.not_launch (h : FlushFirst cfg w v) (hw : WakeInv w) (hi : w.isInited v = false) :
    w.current c ≠ some v := by
  intro hc
  have hm : w.mode c = .host := by
    by_contra hm
    obtain ⟨u, h1, h2⟩ := hw.entered c hm
    rw [Option.some.inj (h1.symm.trans hc), hi] at h2
    cases h2
  have hstep : wakeStep cfg w (.launch c) = (w.vcpuStartCommon cfg c v).setMode c .guest := by
    show (match w.current c with | none => _ | some v => _) = _
    rw [hc]
  have hp : (wakeSys cfg).Path (fun w op => ¬ Flushes w op v) w (wakeStep cfg w (.launch c)) := by
    refine .step (a := .launch c) (.refl w) ?_ ⟨⟨hm, v, hc, hi⟩, rfl⟩
    rintro ⟨d, e, -⟩
    cases e
  refine h _ hp ⟨c, ?_, ?_⟩
  · rw [hstep]
    exact hc
  · rw [hstep]
    exact Function.update_self _ _ _

/-- **The wake-up**: an injection wakes a vCPU that has been launched if and only if the vCPU is out of the
guest and not suspended; one that is about to be launched it does not wake. -/
theorem vcpu_wakeup (hr : (wakeSys cfg).Reach w) {x : VirqId} (he : WakeEnabled w (.inject c v x))
    (hx : (w.gic.irqs x).enable = true) :
    (w.hvVcpuInjectVirq c v x).2 = 0 ∧
    (w.isInited v = true →
      (Woken cfg w (w.hvVcpuInjectVirq c v x).1 v ↔ InHost w v ∧ (w.sched.vcpu v).status ≠ .blocked)) ∧
    (w.isInited v = false → Woken cfg w (w.hvVcpuInjectVirq c v x).1 v → ∀ d, w.current d ≠ some v) := by
  have h : WakeInv w := hr.invariant (I := WakeInv) (fun _ h0 => .boot h0) fun w op w' h _ hs => by
    obtain ⟨he, rfl⟩ := hs
    exact h.step cfg he
  have h' : WakeInv (w.hvVcpuInjectVirq c v x).1 := h.step cfg he
  obtain ⟨g, h1, -, h2⟩ := h.inject c v x
  rw [h1] at h' ⊢
  have hflush : ∀ {w'}, Woken cfg w { w with gic := g } w' → FlushFirst cfg { w with gic := g } w' := by
    intro w' hw
    rcases hw.noticed with hf | ⟨d, hk, -⟩
    · exact hf
    · exact absurd ((h.kicked d).symm.trans hk) (by decide)
  refine ⟨h2 hx, fun hi => ⟨fun hw => ⟨(hflush hw).inHost, fun e => ?_⟩, fun ⟨hv, hs⟩ => ?_⟩, fun hi hw d => ?_⟩
  · have h3 := (hw.resumed e).1
    rw [show (w.sched.tcb (w.sched.vcpu v).thread).state = .blocked from (h.asleep v e).1] at h3
    cases h3
  · exact ⟨.inl (flushFirst h' hi hv), fun e => absurd e hs⟩
  · exact (hflush hw).not_launch h' hi

end

/-! ## a vCPU on CPU 0, and an injection on CPU 1 -/

/-- vCPU 0 with thread 1 is started -/
def smallWake : Wake where
  gic := Vgic.smallVgic
  sched := schedStep (schedStep bootSched (.vcpuCreate ⟨0, 0⟩ 1 16 (some 0))) (.vcpuStart ⟨0, 0⟩)
  vcpu t := if t = 1 then some ⟨0, 0⟩ else none
  flags _ := 0
  isInited _ := false
  mode _ := .host
  kicked _ := false

theorem smallWake_vcpu (v : VcpuId) : smallWake.sched.vcpu v = if v = ⟨0, 0⟩ then ⟨.ready, 1⟩ else ⟨.destroy, 0⟩ := by
  by_cases hv : v = ⟨0, 0⟩
  · rw [hv]
    rfl
  · rw [if_neg hv]
    show Function.update (Function.update (fun _ => (⟨.destroy, 0⟩ : SchedVcpu)) ⟨0, 0⟩ _) ⟨0, 0⟩ _ v = _
    rw [Function.update_of_ne hv, Function.update_of_ne hv]

theorem smallWake_boot : WakeBoot Vgic.smallVgicCfg smallWake where
  gic := Vgic.smallVgic_boot
  sched := by
    have h0 : SchedInv.All bootSched := .boot bootSched_boot
    have h1 : SchedInv.All (schedStep bootSched (.vcpuCreate ⟨0, 0⟩ 1 16 (some 0))) :=
      h0.step trivial ⟨⟨rfl, rfl, fun c (e : 2 * c = 1) => by omega, rfl⟩, by decide⟩
    have h2 : SchedInv.All (schedStep (schedStep bootSched (.vcpuCreate ⟨0, 0⟩ 1 16 (some 0)))
        (.vcpuStart ⟨0, 0⟩)) :=
      h1.step nofun nofun
    exact h2
  running c := by
    have hne : 2 * c ≠ 1 := by omega
    have h1 : smallWake.sched.tcb (2 * c) = bootSched.tcb (2 * c) :=
      (Sched.setTcb_of_ne _ _ hne).trans (Sched.setTcb_of_ne _ _ hne)
    show (smallWake.sched.tcb (2 * c)).state = .running
    rw [h1, show bootSched.tcb (2 * c) = _ from if_pos (by omega)]
  status v := by
    rw [smallWake_vcpu]
    split
    · exact .inl rfl
    · exact .inr rfl
  vcpu t v := by
    rw [smallWake_vcpu]
    show (if t = 1 then some ⟨0, 0⟩ else none) = some v ↔ _
    by_cases hv : v = ⟨0, 0⟩
    · rw [if_pos hv, hv]
      by_cases ht : t = 1
      · rw [if_pos ht, ht]
        exact ⟨fun _ => ⟨rfl, by decide⟩, fun _ => rfl⟩
      · rw [if_neg ht]
        exact ⟨(fun e => by cases e), fun e => absurd e.1.symm ht⟩
    · rw [if_neg hv]
      refine ⟨fun e => ?_, fun e => absurd rfl e.2⟩
      split at e
      · exact absurd (Option.some.inj e).symm hv
      · cases e
  flags _ := rfl
  isInited _ := rfl
  mode _ := rfl
  kicked _ := rfl

theorem wakeSys_step {cfg : VgicConfig} {w : Wake} (op : WakeOp) (hr : (wakeSys cfg).Reach w)
    (he : WakeEnabled w op) : (wakeSys cfg).Reach (wakeStep cfg w op) := .step hr trivial ⟨he, rfl⟩

/-- the vCPU is launched, and its guest enables interrupt 27 -/
def smallWakeRun : List WakeOp := [.sched (.yield 0), .launch 0, .exit 0, .enable (.priv ⟨0, 0⟩ 27) true]

theorem smallWake_reach :
    (wakeSys Vgic.smallVgicCfg).Reach (smallWakeRun.foldl (wakeStep Vgic.smallVgicCfg) smallWake) := by
  have h0 : (wakeSys Vgic.smallVgicCfg).Reach smallWake := .init smallWake_boot
  have h1 := wakeSys_step (.sched (.yield 0)) h0 ⟨trivial, trivial, trivial, fun _ _ => rfl⟩
  have h2 := wakeSys_step (.launch 0) h1 ⟨rfl, ⟨0, 0⟩, rfl, rfl⟩
  have h3 := wakeSys_step (.exit 0) h2 rfl
  exact wakeSys_step (.enable (.priv ⟨0, 0⟩ 27) true) h3 trivial

/-- the vCPU is in the hypervisor when CPU 1 injects the interrupt -/
theorem vcpu_wakeup_host :
    let w := smallWakeRun.foldl (wakeStep Vgic.smallVgicCfg) smallWake
    Woken Vgic.smallVgicCfg w (w.hvVcpuInjectVirq 1 ⟨0, 0⟩ (.priv ⟨0, 0⟩ 27)).1 ⟨0, 0⟩ := by
  refine ((vcpu_wakeup (c := 1) (v := ⟨0, 0⟩) smallWake_reach ⟨rfl, by decide⟩ rfl).2.1 rfl).mpr ⟨fun c hc => ?_, by decide⟩
  show Function.update (Function.update (fun _ => CpuMode.host) 0 .guest) 0 .host c = _ ∨ _
  by_cases h : c = 0
  · rw [h, Function.update_self]
    exact .inl rfl
  · rw [Function.update_of_ne h, Function.update_of_ne h]
    exact .inl rfl

/-- **No kick.**  The vCPU executes guest code on CPU 0 when CPU 1 injects the interrupt: its status is
`VCPU_READY`, as it always is, and no IPI is sent. -/
theorem vcpu_wakeup_fails : ¬ ∀ w, (wakeSys Vgic.smallVgicCfg).Reach w → ∀ c v x,
    WakeEnabled w (.inject c v x) → (w.gic.irqs x).enable = true →
      Woken Vgic.smallVgicCfg w (w.hvVcpuInjectVirq c v x).1 v := by
  intro h
  have h1 := wakeSys_step (.flush 0) smallWake_reach ⟨rfl, ⟨0, 0⟩, rfl, rfl⟩
  have h2 := wakeSys_step (.enter 0) h1 rfl
  have hw := h _ h2 1 ⟨0, 0⟩ (.priv ⟨0, 0⟩ 27) ⟨rfl, by decide⟩ rfl
  rcases hw.noticed with hf | ⟨c, hk, -⟩
  · rcases hf.inHost 0 rfl with hm | hm
    · cases hm
    · cases hm
  · change Function.update (fun _ => false) 0 false c = true at hk
    rw [Function.update_eq_self] at hk
    cases hk

end Thread
end LkHv
