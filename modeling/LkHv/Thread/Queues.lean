import LkHv.Thread.Sched

/-!
# Each thread is on the queue of its state

* `QueuesOk`       a ready thread is on the run queue of its priority and on no other queue, a thread that
  waits on a wait queue is on that one only, any other is on no run queue;
* `SchedGuard`     the hypervisor puts on a run queue what is on no queue;
* `SchedInv`       the invariant, with a CPU between two threads allowed;
* `sched_queues`   runs under the guard are `QueuesOk`;
* `sched_queues_fails`   not so if `hv_vcpu_resume` finds a blocked vCPU.
-/

namespace LkHv
namespace Thread

/-- the guard:
* a blocked vCPU that is resumed has a thread that is ready already;
* a vCPU that is started after a power-off has a thread that is on no queue and on no CPU, and nobody joins it;
* a thread is asleep when its sleep timer fires, and if it is blocked it waits on a queue when its wait times out;
* a thread that is unblocked is off its CPU. -/
def SchedGuard (s : Sched) : SchedOp → Prop
  | .vcpuResume v => (s.vcpu v).status = .blocked → (s.tcb (s.vcpu v).thread).state = .ready
  | .vcpuStart v => (s.vcpu v).status = .shutdown →
    (s.tcb (s.vcpu v).thread).state ≠ .ready ∧ (s.tcb (s.vcpu v).thread).blockingWaitQueue = none ∧
      s.Off (s.vcpu v).thread ∧ (s.waitQueue (.retcode (s.vcpu v).thread)).list = []
  | .sleepHandler t => (s.tcb t).state = .sleeping
  | .unblockFromWaitQueue t => (s.tcb t).state = .blocked → (s.tcb t).blockingWaitQueue ≠ none
  | .unblock _ t _ => s.Off t
  | _ => True

/-- `cur` says what runs on a CPU; between two threads there is none -/
structure SchedInv (s : Sched) (cur : Nat → Option Nat) : Prop where
  ready : ∀ t, (s.tcb t).state = .ready → (s.tcb t).idle = false → t ∈ s.runQueue (s.tcb t).priority
  queued : ∀ p, ∀ t ∈ s.runQueue p, (s.tcb t).state = .ready ∧ (s.tcb t).priority = p ∧ (s.tcb t).idle = false
  bit : ∀ p, s.runQueue p ≠ [] → s.runQueueBitmap p = true
  nodup : ∀ p, (s.runQueue p).Nodup
  waiting : ∀ w t, t ∈ (s.waitQueue w).list ↔ (s.tcb t).blockingWaitQueue = some w
  waitNodup : ∀ w, (s.waitQueue w).list.Nodup
  count : ∀ w, (s.waitQueue w).count = (s.waitQueue w).list.length
  blocked : ∀ t w, (s.tcb t).blockingWaitQueue = some w → (s.tcb t).state = .blocked ∧ (s.tcb t).idle = false
  onCpu : ∀ c t, cur c = some t →
    ((s.tcb t).state = .running ∨ (s.tcb t).state = .blocked) ∧ (s.tcb t).blockingWaitQueue = none
  curInj : ∀ c d t, cur c = some t → cur d = some t → c = d
  priority : ∀ t, (s.tcb t).priority < NUM_PRIORITIES
  idleState : ∀ t, (s.tcb t).idle = true → (s.tcb t).state = .running ∨ (s.tcb t).state = .ready
  idleThread : ∀ c, (s.tcb (s.idleThread c)).idle = true
  idleCur : ∀ c d, cur d = some (s.idleThread c) → d = c
  vcpu : ∀ v, (s.vcpu v).status ≠ .destroy → (s.tcb (s.vcpu v).thread).idle = false
  idleInj : ∀ c d, s.idleThread c = s.idleThread d → c = d

section
variable {s : Sched} {cur : Nat → Option Nat} {c t : Nat}

/-- the invariant of a state in which each CPU runs its current thread -/
abbrev SchedInv.All (s : Sched) : Prop := SchedInv s fun c => some (s.curr c)

theorem SchedInv.not_queued (h : SchedInv s cur) (hs : (s.tcb t).state ≠ .ready) (p : Nat) : t ∉ s.runQueue p :=
  fun hm => hs (h.queued p t hm).1

theorem SchedInv.not_waiting (h : SchedInv s cur) (hb : (s.tcb t).blockingWaitQueue = none) (w : WqId) :
    t ∉ (s.waitQueue w).list := fun hm => by
  rw [h.waiting w t, hb] at hm
  cases hm

theorem SchedInv.ready_blocking (h : SchedInv s cur) (hs : (s.tcb t).state = .ready) :
    (s.tcb t).blockingWaitQueue = none := by
  cases hb : (s.tcb t).blockingWaitQueue with
  | none => rfl
  | some w =>
    have h1 := (h.blocked t w hb).1
    rw [hs] at h1
    cases h1

theorem SchedInv.boot (h : SchedBoot s) : SchedInv.All s where
  ready t hs hi := by
    rw [h.state, hi] at hs
    cases hs
  queued p t hm := by
    rw [h.runQueue] at hm
    cases hm
  bit p hne := absurd (h.runQueue p) hne
  nodup p := by
    rw [h.runQueue]
    exact List.nodup_nil
  waiting w t := by
    rw [h.waitQueue, h.blocking]
    exact ⟨(fun hm => by cases hm), fun e => by cases e⟩
  waitNodup w := by
    rw [h.waitQueue]
    exact List.nodup_nil
  count w := by
    rw [h.waitQueue]
    rfl
  blocked t w hb := by
    rw [h.blocking] at hb
    cases hb
  onCpu c t hc := by
    have ht : t = s.idleThread c := (Option.some.inj hc).symm.trans (h.curr c)
    have hi : (s.tcb t).idle = true := (h.idle t).mpr ⟨c, ht⟩
    refine ⟨.inl ?_, h.blocking t⟩
    rw [h.state, hi]
    rfl
  curInj c d t hc hd := by
    apply h.idleInj
    rw [← h.curr, ← h.curr]
    exact Option.some.inj (hc.trans hd.symm)
  priority := h.priority
  idleState t hi := by
    left
    rw [h.state, hi]
    rfl
  idleThread c := (h.idle _).mpr ⟨c, rfl⟩
  idleCur c d hd := by
    apply h.idleInj
    rw [← h.curr]
    exact Option.some.inj hd
  vcpu v hv := absurd (h.vcpu v) hv
  idleInj := h.idleInj

/-! ## a thread on no queue -/

/-- the thread is on no queue, by its own fields -/
structure Loose (b : Tcb) : Prop where
  state : b.state ≠ .ready
  blocking : b.blockingWaitQueue = none

/-- a thread on no queue changes, and stays on none -/
theorem SchedInv.setLoose (h : SchedInv s cur) {b : Tcb} (hl : (s.tcb t).idle = true ∨ Loose (s.tcb t))
    (hb : b.blockingWaitQueue = none) (hi : b.idle = (s.tcb t).idle) (hp : b.priority < NUM_PRIORITIES)
    (hrun : (s.tcb t).idle = true → b.state = .running ∨ b.state = .ready)
    (hnot : (s.tcb t).idle = false → b.state ≠ .ready)
    (hc : ∀ c, cur c = some t → b.state = .running ∨ b.state = .blocked) : SchedInv (s.setTcb t b) cur := by
  have hq : ∀ p, t ∉ s.runQueue p := fun p hm => by
    obtain ⟨h1, -, h2⟩ := h.queued p t hm
    rcases hl with hl | hl
    · rw [h2] at hl
      cases hl
    · exact hl.state h1
  have hblk : (s.tcb t).blockingWaitQueue = none := by
    rcases hl with hl | hl
    · cases hw : (s.tcb t).blockingWaitQueue with
      | none => rfl
      | some w =>
        have h1 := (h.blocked t w hw).2
        rw [hl] at h1
        cases h1
    · exact hl.blocking
  have hw : ∀ w, t ∉ (s.waitQueue w).list := h.not_waiting hblk
  have hne : ∀ {u}, u ≠ t → (s.setTcb t b).tcb u = s.tcb u := fun hu => s.setTcb_of_ne b hu
  refine ⟨fun u hs' hi' => ?_, fun p u hm => ?_, h.bit, h.nodup, fun w u => ?_, h.waitNodup, h.count,
    fun u w hb' => ?_, fun c u hcu => ?_, h.curInj, fun u => ?_, fun u hi' => ?_, fun c => ?_, h.idleCur,
    fun v hv => ?_, h.idleInj⟩
  · by_cases hu : u = t
    · rw [hu, Sched.setTcb_self] at hs' hi'
      exact absurd hs' (hnot (hi ▸ hi'))
    · rw [hne hu] at hs' hi' ⊢
      exact h.ready u hs' hi'
  · have hu : u ≠ t := fun e => hq p (e ▸ hm)
    rw [hne hu]
    exact h.queued p u hm
  · by_cases hu : u = t
    · rw [hu, Sched.setTcb_self, hb]
      exact ⟨fun hm => absurd hm (hw w), fun e => by cases e⟩
    · rw [hne hu]
      exact h.waiting w u
  · by_cases hu : u = t
    · rw [hu, Sched.setTcb_self, hb] at hb'
      cases hb'
    · rw [hne hu] at hb' ⊢
      exact h.blocked u w hb'
  · by_cases hu : u = t
    · rw [hu] at hcu
      rw [hu, Sched.setTcb_self]
      exact ⟨hc c hcu, hb⟩
    · rw [hne hu]
      exact h.onCpu c u hcu
  · by_cases hu : u = t
    · rw [hu, Sched.setTcb_self]
      exact hp
    · rw [hne hu]
      exact h.priority u
  · by_cases hu : u = t
    · rw [hu, Sched.setTcb_self] at hi' ⊢
      exact hrun (hi ▸ hi')
    · rw [hne hu] at hi' ⊢
      exact h.idleState u hi'
  · by_cases hu : s.idleThread c = t
    · have h1 := h.idleThread c
      rw [hu, ← hi] at h1
      have h2 : (s.setTcb t b).idleThread c = t := hu
      rw [h2, Sched.setTcb_self]
      exact h1
    · exact (congrArg Tcb.idle (hne hu)).trans (h.idleThread c)
  · by_cases hu : (s.vcpu v).thread = t
    · have h1 := h.vcpu v hv
      rw [hu, ← hi] at h1
      have h2 : ((s.setTcb t b).vcpu v).thread = t := hu
      rw [h2, Sched.setTcb_self]
      exact h1
    · exact (congrArg Tcb.idle (hne hu)).trans (h.vcpu v hv)

/-- a field that no queue depends on changes -/
theorem SchedInv.retag (h : SchedInv s cur) {b : Tcb} (hs : b.state = (s.tcb t).state)
    (hp : b.priority = (s.tcb t).priority) (hi : b.idle = (s.tcb t).idle)
    (hb : b.blockingWaitQueue = (s.tcb t).blockingWaitQueue) : SchedInv (s.setTcb t b) cur := by
  have hall : ∀ u, ((s.setTcb t b).tcb u).state = (s.tcb u).state ∧
      ((s.setTcb t b).tcb u).priority = (s.tcb u).priority ∧ ((s.setTcb t b).tcb u).idle = (s.tcb u).idle ∧
      ((s.setTcb t b).tcb u).blockingWaitQueue = (s.tcb u).blockingWaitQueue := by
    intro u
    by_cases hu : u = t
    · rw [hu, Sched.setTcb_self]
      exact ⟨hs, hp, hi, hb⟩
    · rw [s.setTcb_of_ne b hu]
      exact ⟨rfl, rfl, rfl, rfl⟩
  refine ⟨fun u hs' hi' => ?_, fun p u hm => ?_, h.bit, h.nodup, fun w u => ?_, h.waitNodup, h.count,
    fun u w hb' => ?_, fun c u hcu => ?_, h.curInj, fun u => ?_, fun u hi' => ?_,
    fun c => (hall _).2.2.1.trans (h.idleThread c), h.idleCur, fun v hv => (hall _).2.2.1.trans (h.vcpu v hv), h.idleInj⟩
  · rw [(hall u).1] at hs'
    rw [(hall u).2.2.1] at hi'
    rw [(hall u).2.1]
    exact h.ready u hs' hi'
  · rw [(hall u).1, (hall u).2.1, (hall u).2.2.1]
    exact h.queued p u hm
  · rw [(hall u).2.2.2]
    exact h.waiting w u
  · rw [(hall u).2.2.2] at hb'
    rw [(hall u).1, (hall u).2.2.1]
    exact h.blocked u w hb'
  · rw [(hall u).1, (hall u).2.2.2]
    exact h.onCpu c u hcu
  · rw [(hall u).2.1]
    exact h.priority u
  · rw [(hall u).2.2.1] at hi'
    rw [(hall u).1]
    exact h.idleState u hi'

/-! ## onto a queue and off it -/

/-- the invariant reads nothing of the rest -/
theorem SchedInv.congr {s' : Sched} (h : SchedInv s cur) (e1 : s'.tcb = s.tcb) (e2 : s'.runQueue = s.runQueue)
    (e3 : s'.runQueueBitmap = s.runQueueBitmap) (e4 : s'.waitQueue = s.waitQueue) (e5 : s'.idleThread = s.idleThread)
    (e6 : ∀ v, (s'.vcpu v).status ≠ .destroy → (s.tcb (s'.vcpu v).thread).idle = false) : SchedInv s' cur := by
  obtain ⟨h1, h2, h3, h4, h5, h6, h7, h8, h9, h10, h11, h12, h13, h14, -, h15⟩ := h
  rw [← e2, ← e1] at h1 h2
  rw [← e2, ← e3] at h3
  rw [← e2] at h4
  rw [← e4, ← e1] at h5
  rw [← e4] at h6 h7
  rw [← e1] at h8 h9 h11 h12 h13 e6
  rw [← e5] at h13 h14 h15
  exact ⟨h1, h2, h3, h4, h5, h6, h7, h8, h9, h10, h11, h12, h13, h14, e6, h15⟩

/-- **Onto a run queue**: a thread that is on no queue and on no CPU -/
theorem SchedInv.putReady (h : SchedInv s cur) (hl : Loose (s.tcb t)) (hi : (s.tcb t).idle = false)
    (hno : ∀ c, cur c ≠ some t) {l : List Nat} (hperm : l.Perm (t :: s.runQueue (s.tcb t).priority)) :
    SchedInv ((s.setState t .ready).insertRunQueue t l) cur := by
  have hself : (s.setState t .ready).tcb t = { s.tcb t with state := .ready } := Sched.setTcb_self _ _ _
  have hne : ∀ {u}, u ≠ t → (s.setState t .ready).tcb u = s.tcb u := fun hu => s.setTcb_of_ne _ hu
  have hp : ((s.setState t .ready).tcb t).priority = (s.tcb t).priority := by rw [hself]
  have hq := h.not_queued hl.state
  have hself' : ((s.setState t .ready).insertRunQueue t l).runQueue (s.tcb t).priority = l := by
    show Function.update s.runQueue ((s.setState t .ready).tcb t).priority l _ = l
    rw [hp, Function.update_self]
  have hother : ∀ p ≠ (s.tcb t).priority, ((s.setState t .ready).insertRunQueue t l).runQueue p = s.runQueue p := by
    intro p hpne
    show Function.update s.runQueue ((s.setState t .ready).tcb t).priority l p = _
    rw [hp, Function.update_of_ne hpne]
  have hmem : ∀ p u, u ∈ ((s.setState t .ready).insertRunQueue t l).runQueue p ↔
      u ∈ s.runQueue p ∨ u = t ∧ p = (s.tcb t).priority := by
    intro p u
    by_cases hpp : p = (s.tcb t).priority
    · rw [hpp, hself', hperm.mem_iff, List.mem_cons, or_comm]
      exact or_congr_right ⟨fun e => ⟨e, rfl⟩, fun e => e.1⟩
    · rw [hother p hpp]
      exact ⟨.inl, fun e => e.resolve_right fun e => hpp e.2⟩
  have hb : ∀ u, ((s.setState t .ready).tcb u).blockingWaitQueue = (s.tcb u).blockingWaitQueue := by
    intro u
    by_cases hu : u = t
    · rw [hu, hself]
    · rw [hne hu]
  have hidle : ∀ u, ((s.setState t .ready).tcb u).idle = (s.tcb u).idle := by
    intro u
    by_cases hu : u = t
    · rw [hu, hself]
    · rw [hne hu]
  refine ⟨fun u hs' hi' => ?_, fun p u hm => ?_, fun p hpne => ?_, fun p => ?_, fun w u => ?_, h.waitNodup,
    h.count, fun u w hb' => ?_, fun c u hcu => ?_, h.curInj, fun u => ?_, fun u hi' => ?_,
    fun c => (hidle _).trans (h.idleThread c), h.idleCur, fun v hv => (hidle _).trans (h.vcpu v hv), h.idleInj⟩
  · rw [hmem]
    by_cases hu : u = t
    · exact .inr ⟨hu, by rw [hu]; exact hp⟩
    · change ((s.setState t .ready).tcb u).state = .ready at hs'
      change ((s.setState t .ready).tcb u).idle = false at hi'
      change u ∈ s.runQueue ((s.setState t .ready).tcb u).priority ∨ _
      rw [hne hu] at hs' hi' ⊢
      exact .inl (h.ready u hs' hi')
  · change ((s.setState t .ready).tcb u).state = .ready ∧ ((s.setState t .ready).tcb u).priority = p ∧
      ((s.setState t .ready).tcb u).idle = false
    rcases (hmem p u).mp hm with hm | ⟨rfl, rfl⟩
    · rw [hne fun e => hq p (e ▸ hm)]
      exact h.queued p u hm
    · rw [hself]
      exact ⟨rfl, rfl, hi⟩
  · show Function.update s.runQueueBitmap ((s.setState t .ready).tcb t).priority true p = true
    rw [hp]
    by_cases hpp : p = (s.tcb t).priority
    · rw [hpp, Function.update_self]
    · rw [Function.update_of_ne hpp]
      rw [hother p hpp] at hpne
      exact h.bit p hpne
  · by_cases hpp : p = (s.tcb t).priority
    · rw [hpp, hself', hperm.nodup_iff]
      exact List.nodup_cons.mpr ⟨hq _, h.nodup _⟩
    · rw [hother p hpp]
      exact h.nodup p
  · exact (h.waiting w u).trans (by rw [← hb u]; rfl)
  · have hb'' : (s.tcb u).blockingWaitQueue = some w := (hb u).symm.trans hb'
    have hu : u ≠ t := by
      rintro rfl
      rw [hl.blocking] at hb''
      cases hb''
    show ((s.setState t .ready).tcb u).state = .blocked ∧ ((s.setState t .ready).tcb u).idle = false
    rw [hne hu]
    exact h.blocked u w hb''
  · have hu : u ≠ t := fun e => hno c (e ▸ hcu)
    show (((s.setState t .ready).tcb u).state = .running ∨ ((s.setState t .ready).tcb u).state = .blocked) ∧
      ((s.setState t .ready).tcb u).blockingWaitQueue = none
    rw [hne hu]
    exact h.onCpu c u hcu
  · show ((s.setState t .ready).tcb u).priority < NUM_PRIORITIES
    by_cases hu : u = t
    · rw [hu, hp]
      exact h.priority t
    · rw [hne hu]
      exact h.priority u
  · have hi'' : (s.tcb u).idle = true := (hidle u).symm.trans hi'
    have hu : u ≠ t := by
      rintro rfl
      rw [hi] at hi''
      cases hi''
    show ((s.setState t .ready).tcb u).state = .running ∨ ((s.setState t .ready).tcb u).state = .ready
    rw [hne hu]
    exact h.idleState u hi''

theorem SchedInv.readyHead (h : SchedInv s cur) (hl : Loose (s.tcb t)) (hi : (s.tcb t).idle = false)
    (hno : ∀ c, cur c ≠ some t) : SchedInv (s.readyHead t) cur := by
  refine h.putReady hl hi hno ?_
  show (t :: s.runQueue ((s.setState t .ready).tcb t).priority).Perm _
  rw [Sched.setState, Sched.setTcb_self]

theorem SchedInv.readyTail (h : SchedInv s cur) (hl : Loose (s.tcb t)) (hi : (s.tcb t).idle = false)
    (hno : ∀ c, cur c ≠ some t) : SchedInv (s.readyTail t) cur := by
  refine h.putReady hl hi hno ?_
  show (s.runQueue ((s.setState t .ready).tcb t).priority ++ [t]).Perm _
  rw [Sched.setState, Sched.setTcb_self]
  exact List.perm_append_singleton t _

/-- a step that leaves the run queues and moves one blocked thread onto a wait queue or off it -/
theorem SchedInv.setWait (h : SchedInv s cur) {w : WqId} {b : Tcb} {l : List Nat} {n : Int}
    (hq : (s.tcb t).state ≠ .ready) (hi : (s.tcb t).idle = false) (hbi : b.idle = false)
    (hbs : b.state = .blocked) (hbp : b.priority = (s.tcb t).priority)
    (hw : (s.tcb t).blockingWaitQueue = none ∨ (s.tcb t).blockingWaitQueue = some w)
    (hbw : b.blockingWaitQueue = none ∨ b.blockingWaitQueue = some w)
    (hmem : ∀ u, u ≠ t → (u ∈ l ↔ u ∈ (s.waitQueue w).list)) (hself : t ∈ l ↔ b.blockingWaitQueue = some w)
    (hnd : l.Nodup) (hn : n = l.length) (hc : ∀ c, cur c ≠ some t) :
    SchedInv { s.setTcb t b with waitQueue := Function.update s.waitQueue w ⟨l, n⟩ } cur := by
  have hqs := h.not_queued hq
  have hne : ∀ {u}, u ≠ t → (s.setTcb t b).tcb u = s.tcb u := fun hu => s.setTcb_of_ne b hu
  have hidle : ∀ u, ((s.setTcb t b).tcb u).idle = (s.tcb u).idle := by
    intro u
    by_cases hu : u = t
    · rw [hu, Sched.setTcb_self, hbi, hi]
    · rw [hne hu]
  refine ⟨fun u hs' hi' => ?_, fun p u hm => ?_, h.bit, h.nodup, fun w' u => ?_, fun w' => ?_, fun w' => ?_,
    fun u w' hb' => ?_, fun c u hcu => ?_, h.curInj, fun u => ?_, fun u hi' => ?_,
    fun c => (hidle _).trans (h.idleThread c), h.idleCur, fun v hv => (hidle _).trans (h.vcpu v hv), h.idleInj⟩
  · change ((s.setTcb t b).tcb u).state = .ready at hs'
    change ((s.setTcb t b).tcb u).idle = false at hi'
    show u ∈ s.runQueue ((s.setTcb t b).tcb u).priority
    by_cases hu : u = t
    · rw [hu, Sched.setTcb_self, hbs] at hs'
      cases hs'
    · rw [hne hu] at hs' hi' ⊢
      exact h.ready u hs' hi'
  · show ((s.setTcb t b).tcb u).state = .ready ∧ ((s.setTcb t b).tcb u).priority = p ∧
      ((s.setTcb t b).tcb u).idle = false
    rw [hne fun e => hqs p (e ▸ hm)]
    exact h.queued p u hm
  · show u ∈ (Function.update s.waitQueue w ⟨l, n⟩ w').list ↔ ((s.setTcb t b).tcb u).blockingWaitQueue = some w'
    by_cases hw' : w' = w
    · rw [hw', Function.update_self]
      by_cases hu : u = t
      · rw [hu, Sched.setTcb_self]
        exact hself
      · rw [hne hu]
        exact (hmem u hu).trans (h.waiting w u)
    · rw [Function.update_of_ne hw']
      by_cases hu : u = t
      · rw [hu, Sched.setTcb_self, h.waiting w' t]
        -- the thread is on no other wait queue, before and after
        refine ⟨fun e => ?_, fun e => ?_⟩
        · rcases hw with hw | hw
          · rw [hw] at e
            cases e
          · rw [hw] at e
            exact absurd (Option.some.inj e).symm hw'
        · rcases hbw with hbw | hbw
          · rw [hbw] at e
            cases e
          · rw [hbw] at e
            exact absurd (Option.some.inj e).symm hw'
      · rw [hne hu]
        exact h.waiting w' u
  · show (Function.update s.waitQueue w ⟨l, n⟩ w').list.Nodup
    by_cases hw' : w' = w
    · rw [hw', Function.update_self]
      exact hnd
    · rw [Function.update_of_ne hw']
      exact h.waitNodup w'
  · show (Function.update s.waitQueue w ⟨l, n⟩ w').count = (Function.update s.waitQueue w ⟨l, n⟩ w').list.length
    by_cases hw' : w' = w
    · rw [hw', Function.update_self]
      exact hn
    · rw [Function.update_of_ne hw']
      exact h.count w'
  · change ((s.setTcb t b).tcb u).blockingWaitQueue = some w' at hb'
    show ((s.setTcb t b).tcb u).state = .blocked ∧ ((s.setTcb t b).tcb u).idle = false
    by_cases hu : u = t
    · rw [hu, Sched.setTcb_self]
      exact ⟨hbs, hbi⟩
    · rw [hne hu] at hb' ⊢
      exact h.blocked u w' hb'
  · show (((s.setTcb t b).tcb u).state = .running ∨ ((s.setTcb t b).tcb u).state = .blocked) ∧
      ((s.setTcb t b).tcb u).blockingWaitQueue = none
    rw [hne fun e => hc c (e ▸ hcu)]
    exact h.onCpu c u hcu
  · show ((s.setTcb t b).tcb u).priority < NUM_PRIORITIES
    by_cases hu : u = t
    · rw [hu, Sched.setTcb_self, hbp]
      exact h.priority t
    · rw [hne hu]
      exact h.priority u
  · have hi'' : (s.tcb u).idle = true := (hidle u).symm.trans hi'
    have hu : u ≠ t := by
      rintro rfl
      rw [hi] at hi''
      cases hi''
    show ((s.setTcb t b).tcb u).state = .running ∨ ((s.setTcb t b).tcb u).state = .ready
    rw [hne hu]
    exact h.idleState u hi''

/-- **Onto a wait queue** -/
theorem SchedInv.enterWaitQueue (h : SchedInv s cur) (hl : Loose (s.tcb t)) (hi : (s.tcb t).idle = false)
    (hc : ∀ c, cur c ≠ some t) (w : WqId) : SchedInv (s.enterWaitQueue w t) cur := by
  have hno := h.not_waiting hl.blocking w
  refine h.setWait hl.state hi hi rfl rfl (.inl hl.blocking) (.inr rfl) (fun u hu => ?_) ?_ ?_ ?_ hc
  · rw [List.mem_append]
    exact ⟨fun e => e.resolve_right fun e => hu (List.mem_singleton.mp e), .inl⟩
  · exact ⟨fun _ => rfl, fun _ => List.mem_append_right _ (List.mem_singleton_self t)⟩
  · exact List.nodup_append.mpr ⟨h.waitNodup w, List.nodup_singleton t, fun a ha b hb e =>
      hno (List.mem_singleton.mp hb ▸ e ▸ ha)⟩
  · rw [h.count w, List.length_append, List.length_singleton]
    rfl

/-- **Off a wait queue** -/
theorem SchedInv.leaveWaitQueue (h : SchedInv s cur) {w : WqId} (hm : t ∈ (s.waitQueue w).list) :
    SchedInv (s.leaveWaitQueue w t) cur ∧ Loose ((s.leaveWaitQueue w t).tcb t) ∧
      ((s.leaveWaitQueue w t).tcb t).idle = false ∧ ∀ c, cur c ≠ some t := by
  have hb := (h.waiting w t).mp hm
  obtain ⟨h1, h2⟩ := h.blocked t w hb
  have hc : ∀ c, cur c ≠ some t := fun c e => by
    have h3 := (h.onCpu c t e).2
    rw [hb] at h3
    cases h3
  have hnr : (s.tcb t).state ≠ .ready := by
    rw [h1]
    decide
  have hself : (s.leaveWaitQueue w t).tcb t = { s.tcb t with blockingWaitQueue := none } := Sched.setTcb_self _ _ _
  refine ⟨h.setWait hnr h2 h2 h1 rfl (.inr hb) (.inl rfl) (fun u hu => List.mem_erase_of_ne hu) ?_
    ((h.waitNodup w).erase t) ?_ hc, ?_, ?_, hc⟩
  · exact ⟨fun e => absurd e (h.waitNodup w).not_mem_erase, fun e => by cases e⟩
  · have h3 := List.length_pos_of_mem hm
    rw [h.count w, List.length_erase_of_mem hm]
    omega
  · rw [hself]
    exact ⟨hnr, rfl⟩
  · rw [hself]
    exact h2

/-- waking a thread of a wait queue -/
theorem SchedInv.wake (h : SchedInv s cur) {w : WqId} (hm : t ∈ (s.waitQueue w).list) :
    SchedInv ((s.leaveWaitQueue w t).readyHead t) cur := by
  obtain ⟨h1, h2, h3, h4⟩ := h.leaveWaitQueue hm
  exact h1.readyHead h2 h3 h4

/-- **Off a run queue** -/
theorem SchedInv.dequeue (h : SchedInv s cur) {p : Nat} {b : Tcb} (bits : Nat → Bool) (hm : t ∈ s.runQueue p)
    (hi : b.idle = false) (hs : b.state = .running ∨ b.state = .blocked) (hb : b.blockingWaitQueue = none)
    (hp : b.priority < NUM_PRIORITIES) (hbits : ∀ q, s.runQueueBitmap q = true →
      bits q = true ∨ q = p ∧ (s.runQueue p).erase t = []) : SchedInv { s.setTcb t b with
      runQueue := Function.update s.runQueue p ((s.runQueue p).erase t), runQueueBitmap := bits } cur ∧
      ∀ c, cur c ≠ some t := by
  obtain ⟨hr, hpt, hti⟩ := h.queued p t hm
  have hc : ∀ c, cur c ≠ some t := fun c e => by
    rcases (h.onCpu c t e).1 with e' | e'
    · rw [hr] at e'
      cases e'
    · rw [hr] at e'
      cases e'
  have hbn : b.state ≠ .ready := by
    rcases hs with e | e
    · rw [e]
      decide
    · rw [e]
      decide
  have hblk := h.ready_blocking hr
  have hne : ∀ {u}, u ≠ t → (s.setTcb t b).tcb u = s.tcb u := fun hu => s.setTcb_of_ne b hu
  have hidle : ∀ u, ((s.setTcb t b).tcb u).idle = (s.tcb u).idle := by
    intro u
    by_cases hu : u = t
    · rw [hu, Sched.setTcb_self, hi, hti]
    · rw [hne hu]
  have hmem : ∀ q u, u ∈ Function.update s.runQueue p ((s.runQueue p).erase t) q ↔ u ∈ s.runQueue q ∧ u ≠ t := by
    intro q u
    by_cases hq : q = p
    · rw [hq, Function.update_self, (h.nodup p).mem_erase_iff, and_comm]
    · rw [Function.update_of_ne hq]
      refine ⟨fun e => ⟨e, fun hu => hq ?_⟩, And.left⟩
      rw [hu] at e
      rw [← (h.queued q t e).2.1, hpt]
  refine ⟨⟨fun u hs' hi' => ?_, fun q u hm' => ?_, fun q hq => ?_, fun q => ?_, fun w u => ?_, h.waitNodup,
    h.count, fun u w hb' => ?_, fun c u hcu => ?_, h.curInj, fun u => ?_, fun u hi' => ?_,
    fun c => (hidle _).trans (h.idleThread c), h.idleCur, fun v hv => (hidle _).trans (h.vcpu v hv), h.idleInj⟩, hc⟩
  · change ((s.setTcb t b).tcb u).state = .ready at hs'
    change ((s.setTcb t b).tcb u).idle = false at hi'
    show u ∈ Function.update s.runQueue p ((s.runQueue p).erase t) ((s.setTcb t b).tcb u).priority
    by_cases hu : u = t
    · rw [hu, Sched.setTcb_self] at hs'
      exact absurd hs' hbn
    · rw [hne hu] at hs' hi' ⊢
      exact (hmem _ u).mpr ⟨h.ready u hs' hi', hu⟩
  · obtain ⟨h1, h2⟩ := (hmem q u).mp hm'
    show ((s.setTcb t b).tcb u).state = .ready ∧ ((s.setTcb t b).tcb u).priority = q ∧
      ((s.setTcb t b).tcb u).idle = false
    rw [hne h2]
    exact h.queued q u h1
  · change Function.update s.runQueue p ((s.runQueue p).erase t) q ≠ [] at hq
    have hne' : s.runQueue q ≠ [] := by
      obtain ⟨u, hu⟩ := List.exists_mem_of_ne_nil _ hq
      exact List.ne_nil_of_mem ((hmem q u).mp hu).1
    rcases hbits q (h.bit q hne') with e | ⟨rfl, e⟩
    · exact e
    · rw [Function.update_self] at hq
      exact absurd e hq
  · show (Function.update s.runQueue p ((s.runQueue p).erase t) q).Nodup
    by_cases hq : q = p
    · rw [hq, Function.update_self]
      exact (h.nodup p).erase t
    · rw [Function.update_of_ne hq]
      exact h.nodup q
  · show u ∈ (s.waitQueue w).list ↔ ((s.setTcb t b).tcb u).blockingWaitQueue = some w
    by_cases hu : u = t
    · rw [hu, Sched.setTcb_self, hb]
      exact ⟨fun e => absurd e (h.not_waiting hblk w), fun e => by cases e⟩
    · rw [hne hu]
      exact h.waiting w u
  · change ((s.setTcb t b).tcb u).blockingWaitQueue = some w at hb'
    show ((s.setTcb t b).tcb u).state = .blocked ∧ ((s.setTcb t b).tcb u).idle = false
    by_cases hu : u = t
    · rw [hu, Sched.setTcb_self, hb] at hb'
      cases hb'
    · rw [hne hu] at hb' ⊢
      exact h.blocked u w hb'
  · show (((s.setTcb t b).tcb u).state = .running ∨ ((s.setTcb t b).tcb u).state = .blocked) ∧
      ((s.setTcb t b).tcb u).blockingWaitQueue = none
    rw [hne fun e => hc c (e ▸ hcu)]
    exact h.onCpu c u hcu
  · show ((s.setTcb t b).tcb u).priority < NUM_PRIORITIES
    by_cases hu : u = t
    · rw [hu, Sched.setTcb_self]
      exact hp
    · rw [hne hu]
      exact h.priority u
  · have hi'' : (s.tcb u).idle = true := (hidle u).symm.trans hi'
    have hu : u ≠ t := by
      rintro rfl
      rw [hti] at hi''
      cases hi''
    show ((s.setTcb t b).tcb u).state = .running ∨ ((s.setTcb t b).tcb u).state = .ready
    rw [hne hu]
    exact h.idleState u hi''

/-! ## the CPUs -/

/-- a thread leaves its CPU -/
theorem SchedInv.vacate (h : SchedInv s cur) (c : Nat) : SchedInv s (Function.update cur c none) := by
  have hold : ∀ {d t}, Function.update cur c none d = some t → cur d = some t ∧ d ≠ c := by
    intro d t e
    by_cases hd : d = c
    · rw [hd, Function.update_self] at e
      cases e
    · rw [Function.update_of_ne hd] at e
      exact ⟨e, hd⟩
  exact ⟨h.ready, h.queued, h.bit, h.nodup, h.waiting, h.waitNodup, h.count, h.blocked,
    fun d t e => h.onCpu d t (hold e).1, fun d d' t e e' => h.curInj d d' t (hold e).1 (hold e').1, h.priority,
    h.idleState, h.idleThread, fun d d' e => h.idleCur d d' (hold e).1, h.vcpu, h.idleInj⟩

/-- and is on none then -/
theorem SchedInv.vacated (h : SchedInv s cur) (hc : cur c = some t) (d : Nat) :
    Function.update cur c none d ≠ some t := by
  intro e
  by_cases hd : d = c
  · rw [hd, Function.update_self] at e
    cases e
  · rw [Function.update_of_ne hd] at e
    exact hd (h.curInj d c t e hc)

/-- a thread comes onto a CPU -/
theorem SchedInv.occupy (h : SchedInv s cur) (hs : (s.tcb t).state = .running)
    (hb : (s.tcb t).blockingWaitQueue = none) (hno : ∀ d, cur d ≠ some t)
    (hidle : ∀ d, t = s.idleThread d → c = d) : SchedInv s (Function.update cur c (some t)) := by
  have hnew : ∀ {d u}, Function.update cur c (some t) d = some u → d = c ∧ u = t ∨ d ≠ c ∧ cur d = some u := by
    intro d u e
    by_cases hd : d = c
    · rw [hd, Function.update_self] at e
      exact .inl ⟨hd, (Option.some.inj e).symm⟩
    · rw [Function.update_of_ne hd] at e
      exact .inr ⟨hd, e⟩
  refine ⟨h.ready, h.queued, h.bit, h.nodup, h.waiting, h.waitNodup, h.count, h.blocked, fun d u e => ?_,
    fun d d' u e e' => ?_, h.priority, h.idleState, h.idleThread, fun d d' e => ?_, h.vcpu, h.idleInj⟩
  · rcases hnew e with ⟨-, rfl⟩ | ⟨-, e⟩
    · exact ⟨.inl hs, hb⟩
    · exact h.onCpu d u e
  · rcases hnew e with ⟨h1, h2⟩ | ⟨-, h1⟩
    · rcases hnew e' with ⟨h3, -⟩ | ⟨-, h3⟩
      · rw [h1, h3]
      · rw [h2] at h3
        exact absurd h3 (hno d')
    · rcases hnew e' with ⟨-, h3⟩ | ⟨-, h3⟩
      · rw [h3] at h1
        exact absurd h1 (hno d)
      · exact h.curInj d d' u h1 h3
  · rcases hnew e with ⟨h1, h2⟩ | ⟨-, h1⟩
    · exact h1.trans (hidle d h2.symm)
    · exact h.idleCur d d' h1

theorem topThread_mem {cpu n p : Nat} (h : s.topThread cpu n = some (p, t)) : t ∈ s.runQueue p := by
  induction n with
  | zero => cases h
  | succ n ih =>
    rw [Sched.topThread] at h
    split at h
    · split at h
      · rename_i u hu
        cases h
        exact List.mem_of_find?_eq_some hu
      · exact ih h
    · exact ih h

/-- what `thread_resched` does once it has the new thread -/
def Sched.switchTo (s : Sched) (cpu t : Nat) : Sched :=
  if t = s.curr cpu then s
  else
    let b := s.tcb t
    let s := s.setTcb t { b with remainingQuantum := if b.remainingQuantum ≤ 0 then 5 else b.remainingQuantum }
    let s := s.setTcb (s.curr cpu) { s.tcb (s.curr cpu) with currCpu := none }
    let s := s.setTcb t { s.tcb t with currCpu := some cpu }
    { s with curr := Function.update s.curr cpu t }

theorem threadResched_eq (s : Sched) (c : Nat) :
    s.threadResched c = ((s.getTopThread c).1.setState (s.getTopThread c).2 .running).switchTo c
      (s.getTopThread c).2 := rfl

theorem SchedInv.switchTo (cur : Nat → Option Nat) (h : SchedInv s (Function.update cur c (some t)))
    (hcur : ∀ d ≠ c, cur d = some (s.curr d)) : SchedInv.All (s.switchTo c t) := by
  unfold Sched.switchTo
  split
  · rename_i ht
    have e : (fun d => some (s.curr d)) = Function.update cur c (some t) := by
      funext d
      by_cases hd : d = c
      · rw [hd, Function.update_self, ht]
      · rw [Function.update_of_ne hd, hcur d hd]
    unfold SchedInv.All
    rw [e]
    exact h
  · have e : (fun d => some (Function.update s.curr c t d)) = Function.update cur c (some t) := by
      funext d
      by_cases hd : d = c
      · rw [hd, Function.update_self, Function.update_self]
      · rw [Function.update_of_ne hd, Function.update_of_ne hd, hcur d hd]
    have h1 := h.retag (t := t) (b := { s.tcb t with
      remainingQuantum := if (s.tcb t).remainingQuantum ≤ 0 then 5 else (s.tcb t).remainingQuantum }) rfl rfl rfl rfl
    have h2 := h1.retag (t := s.curr c) (b := { (s.setTcb t _).tcb (s.curr c) with currCpu := none })
      rfl rfl rfl rfl
    have h3 := h2.retag (t := t) (b := { ((s.setTcb t _).setTcb (s.curr c) _).tcb t with currCpu := some c })
      rfl rfl rfl rfl
    rw [← e] at h3
    exact h3.congr rfl rfl rfl rfl rfl h3.vcpu

/-- **`thread_resched`**, the old thread being where it has to be -/
theorem SchedInv.resched (h : SchedInv s cur) (hc : cur c = none) (hcur : ∀ d ≠ c, cur d = some (s.curr d)) :
    SchedInv.All (s.threadResched c) := by
  rw [threadResched_eq]
  unfold Sched.getTopThread
  cases htop : s.topThread c NUM_PRIORITIES with
  | some pt =>
    obtain ⟨p, t⟩ := pt
    dsimp only
    have hm := topThread_mem htop
    obtain ⟨hr, -, hi⟩ := h.queued p t hm
    obtain ⟨h1, h2⟩ := h.dequeue (b := { s.tcb t with state := .running })
      (if (s.runQueue p).erase t = [] then Function.update s.runQueueBitmap p false else s.runQueueBitmap)
      hm hi (.inl rfl) (h.ready_blocking hr) (h.priority t) (fun q hq => by
        split
        · rename_i hnil
          by_cases hqp : q = p
          · exact .inr ⟨hqp, hnil⟩
          · exact .inl (by rw [Function.update_of_ne hqp]; exact hq)
        · exact .inl hq)
    refine SchedInv.switchTo cur (h1.occupy ?_ ?_ h2 fun d e => ?_) hcur
    · exact congrArg Tcb.state (s.setTcb_self t _)
    · exact (congrArg Tcb.blockingWaitQueue (s.setTcb_self t _)).trans (h.ready_blocking hr)
    · have h3 := h.idleThread d
      change t = s.idleThread d at e
      rw [← e, hi] at h3
      cases h3
  | none =>
    dsimp only
    have hi := h.idleThread c
    have hb : (s.tcb (s.idleThread c)).blockingWaitQueue = none := by
      cases hw : (s.tcb (s.idleThread c)).blockingWaitQueue with
      | none => rfl
      | some w =>
        have h1 := (h.blocked _ w hw).2
        rw [hi] at h1
        cases h1
    have hno : ∀ d, cur d ≠ some (s.idleThread c) := fun d e => by
      rw [h.idleCur c d e, hc] at e
      cases e
    have h1 : SchedInv (s.setState (s.idleThread c) .running) cur :=
      h.setLoose (.inl hi) hb rfl (h.priority _) (fun _ => .inl rfl) (fun e => by rw [hi] at e; cases e)
        fun _ _ => .inl rfl
    refine SchedInv.switchTo cur (h1.occupy ?_ ?_ hno fun d e => ?_) hcur
    · exact congrArg Tcb.state (s.setTcb_self _ _)
    · exact (congrArg Tcb.blockingWaitQueue (s.setTcb_self _ _)).trans hb
    · exact h.idleInj c d e

/-- **A CPU reschedules.**  What the old thread is made on the way does not matter, once it is off the CPU. -/
theorem SchedInv.reschedule {s' : Sched} (h : SchedInv s' (Function.update (fun d => some (s.curr d)) c none))
    (hcurr : s'.curr = s.curr) : SchedInv.All (s'.threadResched c) := by
  refine h.resched (Function.update_self _ _ _) fun d hd => ?_
  rw [Function.update_of_ne hd, hcurr]

/-! ## the operations -/

theorem SchedInv.loose (h : SchedInv.All s) (c : Nat) : Loose (s.tcb (s.curr c)) := by
  obtain ⟨h1, h2⟩ := h.onCpu c _ rfl
  refine ⟨fun e => ?_, h2⟩
  rcases h1 with h1 | h1
  · rw [e] at h1
    cases h1
  · rw [e] at h1
    cases h1

theorem SchedInv.off (h : s.Off t) (c : Nat) : some (s.curr c) ≠ some t := fun e => h c (Option.some.inj e)

/-- a thread that is suspended or asleep is on no queue and on no CPU -/
theorem SchedInv.away (h : SchedInv s cur) {st : ThreadState} (hs : (s.tcb t).state = st) (h1 : st ≠ .ready)
    (h2 : st ≠ .running) (h3 : st ≠ .blocked) : Loose (s.tcb t) ∧ (s.tcb t).idle = false ∧ ∀ c, cur c ≠ some t := by
  refine ⟨⟨by rwa [hs], ?_⟩, ?_, fun c e => ?_⟩
  · cases hb : (s.tcb t).blockingWaitQueue with
    | none => rfl
    | some w => exact absurd (hs.symm.trans (h.blocked t w hb).1) h3
  · cases hi : (s.tcb t).idle with
    | false => rfl
    | true =>
      rcases h.idleState t hi with e | e
      · exact absurd (hs.symm.trans e) h2
      · exact absurd (hs.symm.trans e) h1
  · rcases (h.onCpu c t e).1 with e | e
    · exact absurd (hs.symm.trans e) h2
    · exact absurd (hs.symm.trans e) h3

theorem SchedInv.threadResume (h : SchedInv.All s) (t : Nat) : SchedInv.All (s.threadResume t) := by
  unfold Sched.threadResume
  split
  · rename_i hs
    obtain ⟨h1, h2, h3⟩ := SchedInv.away h hs (by decide) (by decide) (by decide)
    exact SchedInv.readyHead h h1 h2 h3
  · exact h

/-- a thread off its CPU goes back -/
theorem SchedInv.putBack (h : SchedInv s cur) (hl : Loose (s.tcb t)) (hno : ∀ d, cur d ≠ some t) (head : Bool) :
    SchedInv (s.putBack t head) cur := by
  unfold Sched.putBack
  split
  · rename_i hi
    exact h.setLoose (.inr hl) hl.blocking rfl (h.priority t) (fun _ => .inr rfl)
      (fun e => by rw [hi] at e; cases e) fun d e => absurd e (hno d)
  · rename_i hi
    have hi := Bool.eq_false_iff.mpr hi
    split
    · exact h.readyHead hl hi hno
    · exact h.readyTail hl hi hno

theorem SchedInv.threadYield (h : SchedInv.All s) (c : Nat) : SchedInv.All (s.threadYield c) := by
  have h1 := (h.vacate c).retag (t := s.curr c) (b := { s.tcb (s.curr c) with remainingQuantum := 0 })
    rfl rfl rfl rfl
  have hl : Loose ((s.setTcb (s.curr c) { s.tcb (s.curr c) with remainingQuantum := 0 }).tcb (s.curr c)) := by
    rw [Sched.setTcb_self]
    exact ⟨(h.loose c).state, (h.loose c).blocking⟩
  refine SchedInv.reschedule (h1.putBack hl (h.vacated rfl) false) ?_
  unfold Sched.putBack
  split
  · rfl
  · rfl

theorem SchedInv.threadPreempt (h : SchedInv.All s) (c : Nat) : SchedInv.All (s.threadPreempt c) := by
  refine SchedInv.reschedule ((h.vacate c).putBack (h.loose c) (h.vacated rfl) _) ?_
  unfold Sched.putBack
  split
  · rfl
  · split
    · rfl
    · rfl

theorem SchedInv.threadBlock (h : SchedInv.All s) (c : Nat) : SchedInv.All (s.threadBlock c) :=
  SchedInv.reschedule (h.vacate c) rfl

/-- the current thread gets a state in which it is on no queue, and the CPU reschedules -/
theorem SchedInv.leave (h : SchedInv.All s) (c : Nat) (hi : (s.tcb (s.curr c)).idle = false) (st : ThreadState)
    (hst : st ≠ .ready) : SchedInv (s.setState (s.curr c) st) (Function.update (fun d => some (s.curr d)) c none) :=
  (h.vacate c).setLoose (.inr (h.loose c)) (h.loose c).blocking rfl (h.priority _)
    (fun e => by rw [hi] at e; cases e) (fun _ => hst) fun d e => absurd e (h.vacated rfl d)

theorem SchedInv.threadSleep (h : SchedInv.All s) (c : Nat) (hi : (s.tcb (s.curr c)).idle = false) :
    SchedInv.All (s.threadSleep c) := by
  have h1 := (h.leave c hi .sleeping (by decide))
  have h2 : SchedInv
      ({ s with sleepTimer := Function.update s.sleepTimer (s.curr c) true }.setState (s.curr c) .sleeping) _ :=
    h1.congr rfl rfl rfl rfl rfl h1.vcpu
  exact SchedInv.reschedule h2 rfl

theorem SchedInv.threadSetPriority (h : SchedInv.All s) (c : Nat) (p : Int)
    (hi : (s.tcb (s.curr c)).idle = false) : SchedInv.All (s.threadSetPriority c p) := by
  have hp : Sched.clampPriority p < NUM_PRIORITIES := by
    unfold Sched.clampPriority IDLE_PRIORITY HIGHEST_PRIORITY NUM_PRIORITIES
    split
    · decide
    · split
      · decide
      · omega
  have hl := h.loose c
  have h1 := (h.vacate c).setLoose (t := s.curr c)
    (b := { s.tcb (s.curr c) with priority := Sched.clampPriority p }) (.inr hl) hl.blocking rfl hp
    (fun e => by rw [hi] at e; cases e) (fun _ => hl.state) fun d e => absurd e (h.vacated rfl d)
  refine SchedInv.reschedule (h1.readyHead ?_ ?_ (h.vacated rfl)) rfl
  · rw [Sched.setTcb_self]
    exact ⟨hl.state, hl.blocking⟩
  · rw [Sched.setTcb_self]
    exact hi

theorem SchedInv.waitQueueBlock (h : SchedInv.All s) (c : Nat) (w : WqId) (timeout : Nat)
    (hi : (s.tcb (s.curr c)).idle = false) : SchedInv.All (s.waitQueueBlock c w timeout) := by
  unfold Sched.waitQueueBlock
  split
  · exact h
  · exact SchedInv.reschedule ((h.vacate c).enterWaitQueue (h.loose c) hi (h.vacated rfl) w) rfl

theorem SchedInv.waitQueueWakeOne (h : SchedInv.All s) (c : Nat) (w : WqId) (resched : Bool)
    (hi : resched = true → (s.tcb (s.curr c)).idle = false) : SchedInv.All (s.waitQueueWakeOne c w resched) := by
  unfold Sched.waitQueueWakeOne
  split
  · exact h
  · rename_i t l hl
    have hm : t ∈ (s.waitQueue w).list := by
      rw [hl]
      exact List.mem_cons_self
    dsimp only
    split
    · rename_i hr
      obtain ⟨h1, h2, h3, h4⟩ := (h.vacate c).leaveWaitQueue hm
      have hne : s.curr c ≠ t := fun e => by
        rw [← e, h.waiting, (h.loose c).blocking] at hm
        cases hm
      have hself : (s.leaveWaitQueue w t).tcb (s.curr c) = s.tcb (s.curr c) := s.setTcb_of_ne _ hne
      have h5 := h1.readyHead (t := s.curr c) (by rw [hself]; exact h.loose c) (by rw [hself]; exact hi hr)
        (h.vacated rfl)
      have hself' : ((s.leaveWaitQueue w t).readyHead (s.curr c)).tcb t = (s.leaveWaitQueue w t).tcb t :=
        Sched.setTcb_of_ne _ _ fun e => hne e.symm
      exact SchedInv.reschedule (h5.readyHead (by rw [hself']; exact h2) (by rw [hself']; exact h3) h4) rfl
    · exact h.wake hm

/-- the loop of `wait_queue_wake_all` -/
theorem SchedInv.wakeLoop {w : WqId} {l : List Nat} (h : SchedInv s cur) (hl : (s.waitQueue w).list = l) :
    SchedInv (Sched.wakeLoop w s l) cur ∧ (Sched.wakeLoop w s l).curr = s.curr := by
  induction l generalizing s with
  | nil => exact ⟨h, rfl⟩
  | cons t l ih =>
    have hm : t ∈ (s.waitQueue w).list := by
      rw [hl]
      exact List.mem_cons_self
    have hl' : (((s.leaveWaitQueue w t).readyHead t).waitQueue w).list = l := by
      show (Function.update s.waitQueue w ⟨(s.waitQueue w).list.erase t, _⟩ w).list = l
      rw [Function.update_self, hl, List.erase_cons_head]
    exact ih (h.wake hm) hl'

theorem SchedInv.waitQueueWakeAll (h : SchedInv.All s) (c : Nat) (w : WqId) (resched : Bool)
    (hi : resched = true → (s.tcb (s.curr c)).idle = false) : SchedInv.All (s.waitQueueWakeAll c w resched) := by
  unfold Sched.waitQueueWakeAll
  dsimp only
  by_cases hr : resched = true
  · by_cases hl : (s.waitQueue w).list = []
    · have hcount : ¬ (resched = true ∧ (s.waitQueue w).count > 0) := by
        rintro ⟨-, hc⟩
        rw [h.count w, hl] at hc
        cases hc
      rw [if_neg hcount, if_neg fun e => e.1 hl, hl]
      exact h
    · have hcount : resched = true ∧ (s.waitQueue w).count > 0 := by
        refine ⟨hr, ?_⟩
        rw [h.count w]
        have := List.length_pos_iff.mpr hl
        omega
      rw [if_pos hcount, if_pos ⟨hl, hr⟩]
      have h1 := (h.vacate c).readyHead (h.loose c) (hi hr) (h.vacated rfl)
      obtain ⟨h2, h3⟩ := h1.wakeLoop (w := w) (l := (s.waitQueue w).list) rfl
      exact h2.reschedule h3
  · rw [if_neg fun e => hr e.2, if_neg fun e => hr e.1]
    obtain ⟨h1, h2⟩ := SchedInv.wakeLoop h (w := w) rfl
    unfold SchedInv.All
    rw [h2]
    exact h1

theorem SchedInv.threadExit (h : SchedInv.All s) (c : Nat) (hi : (s.tcb (s.curr c)).idle = false) :
    SchedInv.All (s.threadExit c) := by
  have h1 := h.leave c hi .death (by decide)
  unfold Sched.threadExit Sched.waitQueueWakeAll
  dsimp only
  rw [if_neg fun e => absurd e.2 (by decide), if_neg fun e => absurd e.1 (by decide)]
  obtain ⟨h2, h3⟩ := h1.wakeLoop (w := .retcode (s.curr c)) rfl
  exact h2.reschedule h3

theorem SchedInv.threadUnblockFromWaitQueue (h : SchedInv.All s) (t : Nat) :
    SchedInv.All (s.threadUnblockFromWaitQueue t) := by
  unfold Sched.threadUnblockFromWaitQueue
  split
  · exact h
  · split
    · exact h
    · rename_i w hw
      exact SchedInv.wake h ((h.waiting w t).mpr hw)

theorem SchedInv.threadUnblock (h : SchedInv.All s) (c t : Nat) (resched : Bool)
    (hs : (s.tcb t).state = .blocked ∧ (s.tcb t).blockingWaitQueue = none) (hoff : s.Off t) :
    SchedInv.All (s.threadUnblock c t resched) := by
  have hi : (s.tcb t).idle = false := by
    cases hi : (s.tcb t).idle with
    | false => rfl
    | true =>
      rcases h.idleState t hi with h1 | h1
      · rw [hs.1] at h1
        cases h1
      · rw [hs.1] at h1
        cases h1
  have hl : Loose (s.tcb t) := ⟨by rw [hs.1]; decide, hs.2⟩
  have hr := SchedInv.readyHead h hl hi (SchedInv.off hoff)
  unfold Sched.threadUnblock
  split
  · exact hr.threadBlock c
  · exact hr

/-- an empty wait queue is as `wait_queue_init` makes it -/
theorem SchedInv.emptyWait (h : SchedInv s cur) {w : WqId} (hw : (s.waitQueue w).list = []) :
    Function.update s.waitQueue w ⟨[], 0⟩ = s.waitQueue := by
  have h1 := h.count w
  rw [hw] at h1
  have h2 : s.waitQueue w = ⟨[], 0⟩ := by
    calc s.waitQueue w = ⟨(s.waitQueue w).list, (s.waitQueue w).count⟩ := rfl
      _ = ⟨[], 0⟩ := by rw [hw, h1]; rfl
  rw [← h2]
  exact Function.update_eq_self _ _

/-- the memory of a thread that is gone -/
theorem SchedInv.threadCreate (h : SchedInv.All s) {p : Nat} {pinned : Option Nat} (hf : s.Free t)
    (hp : p < NUM_PRIORITIES) : SchedInv.All (s.threadCreate t p pinned) := by
  obtain ⟨h1, h2, h3, h4⟩ := hf
  have hb : (s.tcb t).blockingWaitQueue = none := by
    cases hb : (s.tcb t).blockingWaitQueue with
    | none => rfl
    | some w =>
      have h5 := (h.blocked t w hb).1
      rw [h1] at h5
      cases h5
  have h6 : SchedInv.All (s.setTcb t ⟨.suspended, p, 0, false, false, none, pinned, none⟩) :=
    h.setLoose (.inr ⟨by rw [h1]; decide, hb⟩) rfl h2.symm hp
      (fun e => by rw [h2] at e; cases e) (fun _ e => by cases e) fun c e => absurd e (SchedInv.off h3 c)
  exact h6.congr rfl rfl rfl (h.emptyWait h4) rfl h6.vcpu

/-! ## the vCPU operations -/

theorem SchedInv.setStatus (h : SchedInv s cur) {v : VcpuId} {st : VcpuStatus} (hv : (s.vcpu v).status ≠ .destroy) :
    SchedInv (s.setStatus v st) cur := by
  refine h.congr rfl rfl rfl rfl rfl fun u hu => ?_
  by_cases huv : u = v
  · have h1 : ((s.setStatus v st).vcpu v).thread = (s.vcpu v).thread := by
      show (Function.update s.vcpu v _ v).thread = _
      rw [Function.update_self]
    rw [huv, h1]
    exact h.vcpu v hv
  · have h1 : (s.setStatus v st).vcpu u = s.vcpu u := Function.update_of_ne huv _ _
    rw [h1] at hu ⊢
    exact h.vcpu u hu

/-- **`stop_current_cpu_thread`**, whatever the thread does -/
theorem SchedInv.stop (h : SchedInv.All s) (hi : (s.tcb t).idle = false) :
    SchedInv.All (s.stopCurrentCpuThread t).1 := by
  have hblock : (s.tcb t).state ≠ .ready → SchedInv.All (s.setState t .blocked) := by
    intro hne
    cases hb : (s.tcb t).blockingWaitQueue with
    | none =>
      exact h.setLoose (.inr ⟨hne, hb⟩) hb rfl (h.priority t)
        (fun e => by rw [hi] at e; cases e) (fun _ e => by cases e) fun _ _ => .inr rfl
    | some w =>
      have h1 := (h.blocked t w hb).1
      exact SchedInv.retag h h1.symm rfl rfl rfl
  unfold Sched.stopCurrentCpuThread
  cases hs : (s.tcb t).state with
  | ready =>
    have hm := h.ready t hs hi
    obtain ⟨h1, -⟩ := SchedInv.dequeue h (b := { s.tcb t with state := .blocked }) s.runQueueBitmap hm hi
      (.inr rfl) (h.ready_blocking hs) (h.priority t) fun q hq => .inl hq
    refine h1.congr rfl ?_ rfl ?_ rfl h1.vcpu
    · funext p
      show (s.runQueue p).erase t = Function.update s.runQueue _ _ p
      by_cases hp : p = (s.tcb t).priority
      · rw [hp, Function.update_self]
      · rw [Function.update_of_ne hp]
        exact List.erase_of_not_mem fun hm' => hp (h.queued p t hm').2.1.symm
    · funext w
      show (⟨(s.waitQueue w).list.erase t, (s.waitQueue w).count⟩ : Wq) = s.waitQueue w
      rw [List.erase_of_not_mem (h.not_waiting (h.ready_blocking hs) w)]
  | running => exact hblock (by rw [hs]; decide)
  | suspended => exact hblock (by rw [hs]; decide)
  | blocked => exact hblock (by rw [hs]; decide)
  | sleeping => exact hblock (by rw [hs]; decide)
  | death => exact hblock (by rw [hs]; decide)

theorem SchedInv.hvVcpuStop (h : SchedInv.All s) (c : Nat) (v : VcpuId) (hv : (s.vcpu v).status ≠ .destroy) :
    SchedInv.All (s.hvVcpuStop c v).1 := by
  unfold Sched.hvVcpuStop
  split
  · exact h
  · split
    · exact h
    · split
      · exact SchedInv.stop (SchedInv.setStatus h hv) (h.vcpu v hv)
      · exact h

theorem SchedInv.hvVcpuPoweroff (h : SchedInv.All s) (c : Nat) (v : VcpuId) (hv : (s.vcpu v).status ≠ .destroy) :
    SchedInv.All (s.hvVcpuPoweroff c v).1 := by
  unfold Sched.hvVcpuPoweroff
  split
  · exact h
  · split
    · exact h
    · split
      · exact SchedInv.stop (SchedInv.setStatus h hv) (h.vcpu v hv)
      · exact h

theorem SchedInv.hvVcpuBlock (h : SchedInv.All s) (c : Nat) (v : VcpuId) (hv : (s.vcpu v).status ≠ .destroy) :
    SchedInv.All (s.hvVcpuBlock c v) := by
  have h1 := h.hvVcpuStop c v hv
  unfold Sched.hvVcpuBlock
  dsimp only
  split
  · exact h1.threadBlock c
  · exact h1

/-- a blocked vCPU whose thread is ready already -/
theorem SchedInv.hvVcpuResume (h : SchedInv.All s) (v : VcpuId) (hv : (s.vcpu v).status ≠ .destroy)
    (hg : (s.vcpu v).status = .blocked → (s.tcb (s.vcpu v).thread).state = .ready) :
    SchedInv.All (s.hvVcpuResume v) := by
  unfold Sched.hvVcpuResume
  split
  · exact h
  · rename_i hs
    have hr := hg (not_not.mp hs)
    have h1 : SchedInv.All (s.setStatus v .ready) := SchedInv.setStatus h hv
    have h2 : SchedInv.All ((s.setStatus v .ready).setState (s.vcpu v).thread .ready) :=
      SchedInv.retag h1 hr.symm rfl rfl rfl
    exact h2.threadResume _

theorem SchedInv.threadReset (h : SchedInv.All s) (hl : Loose (s.tcb t)) (hi : (s.tcb t).idle = false)
    (hoff : s.Off t) (hw : (s.waitQueue (.retcode t)).list = []) : SchedInv.All (s.threadReset t) := by
  have h1 : SchedInv.All (s.setTcb t { s.tcb t with state := .suspended, blockingWaitQueue := none }) :=
    h.setLoose (.inr hl) rfl rfl (h.priority t) (fun e => by rw [hi] at e; cases e) (fun _ e => by cases e)
      fun c e => absurd e (SchedInv.off hoff c)
  exact h1.congr rfl rfl rfl (h.emptyWait hw) rfl h1.vcpu

/-- a vCPU that was powered off, with its thread on no queue and on no CPU -/
theorem SchedInv.hvVcpuStart (h : SchedInv.All s) (v : VcpuId) (hv : (s.vcpu v).status ≠ .destroy)
    (hg : SchedGuard s (.vcpuStart v)) : SchedInv.All (s.hvVcpuStart v) := by
  have hi := h.vcpu v hv
  have hready : ∀ {s' : Sched}, SchedInv.All s' → s'.vcpu = s.vcpu →
      SchedInv.All ((s'.setStatus v .ready).threadResume (s.vcpu v).thread) := by
    intro s' h' e
    have h1 : SchedInv.All (s'.setStatus v .ready) := SchedInv.setStatus h' (by rw [e]; exact hv)
    exact h1.threadResume _
  unfold Sched.hvVcpuStart
  dsimp only
  split
  · exact h
  · by_cases hs : (s.vcpu v).status = .shutdown
    · obtain ⟨h1, h2, h3, h4⟩ := hg hs
      rw [if_pos hs]
      split
      · have h5 : SchedInv.All (s.setState (s.vcpu v).thread .suspended) :=
          h.setLoose (.inr ⟨h1, h2⟩) h2 rfl (h.priority _) (fun e => by rw [hi] at e; cases e)
            (fun _ e => by cases e) fun c e => absurd e (SchedInv.off h3 c)
        refine hready (h5.threadReset ?_ ?_ h3 h4) rfl
        · rw [Sched.setState, Sched.setTcb_self]
          exact ⟨(fun e => by cases e), h2⟩
        · rw [Sched.setState, Sched.setTcb_self]
          exact hi
      · exact hready (h.threadReset ⟨h1, h2⟩ hi h3 h4) rfl
    · rw [if_neg hs]
      exact hready h rfl

/-! ## runs -/

theorem SchedInv.step (h : SchedInv.All s) {op : SchedOp} (hg : SchedGuard s op) (he : SchedEnabled s op) :
    SchedInv.All (schedStep s op) := by
  cases op with
  | create t p pinned => exact h.threadCreate he.1 he.2
  | resume t => exact h.threadResume t
  | yield c => exact h.threadYield c
  | preempt c => exact h.threadPreempt c
  | block c => exact h.threadBlock c
  | unblock c t resched => exact h.threadUnblock c t resched he hg
  | tick c =>
    show SchedInv.All (s.threadTimerTick c)
    unfold Sched.threadTimerTick
    dsimp only
    split
    · exact h
    · exact SchedInv.retag h rfl rfl rfl rfl
  | setRealTime t => exact SchedInv.retag h rfl rfl rfl rfl
  | sleep c => exact h.threadSleep c he
  | sleepHandler t =>
    have h1 : SchedInv { s with sleepTimer := Function.update s.sleepTimer t false } fun c => some (s.curr c) :=
      SchedInv.congr h rfl rfl rfl rfl rfl h.vcpu
    obtain ⟨h2, h3, h4⟩ := SchedInv.away h hg (by decide) (by decide) (by decide)
    exact h1.readyHead h2 h3 h4
  | setPriority c p => exact h.threadSetPriority c p he
  | waitBlock c w timeout => exact h.waitQueueBlock c w timeout he
  | wakeOne c w resched => exact h.waitQueueWakeOne c w resched he
  | wakeAll c w resched => exact h.waitQueueWakeAll c w resched he
  | unblockFromWaitQueue t => exact h.threadUnblockFromWaitQueue t
  | exit c => exact h.threadExit c he
  | vcpuCreate v t p pinned =>
    have h1 : SchedInv.All (s.threadCreate t p pinned) := h.threadCreate he.1 he.2
    refine SchedInv.congr h1 rfl rfl rfl rfl rfl fun u hu => ?_
    change (Function.update s.vcpu v ⟨.created, t⟩ u).status ≠ .destroy at hu
    show ((s.threadCreate t p pinned).tcb (Function.update s.vcpu v ⟨.created, t⟩ u).thread).idle = false
    by_cases huv : u = v
    · rw [huv, Function.update_self]
      exact congrArg Tcb.idle (Sched.setTcb_self _ _ _)
    · rw [Function.update_of_ne huv] at hu ⊢
      exact h1.vcpu u hu
  | vcpuStart v => exact h.hvVcpuStart v he hg
  | vcpuStop c v => exact h.hvVcpuStop c v he
  | vcpuBlock c v => exact h.hvVcpuBlock c v he
  | vcpuResume v => exact h.hvVcpuResume v he hg
  | vcpuPoweroff c v => exact h.hvVcpuPoweroff c v he

end

/-! ## a vCPU on one CPU -/

/-- thread `2 c` is the idle thread of CPU `c` -/
def bootSched : Sched where
  tcb t := if t % 2 = 0 then ⟨.running, 0, 0, true, false, some (t / 2), some (t / 2), none⟩
    else ⟨.death, 0, 0, false, false, none, none, none⟩
  runQueue _ := []
  runQueueBitmap _ := false
  waitQueue _ := ⟨[], 0⟩
  curr c := 2 * c
  idleThread c := 2 * c
  sleepTimer _ := false
  vcpu _ := ⟨.destroy, 0⟩

theorem bootSched_boot : SchedBoot bootSched := by
  have hodd : ∀ {t}, ¬ t % 2 = 0 → bootSched.tcb t = ⟨.death, 0, 0, false, false, none, none, none⟩ :=
    fun h => if_neg h
  have heven : ∀ {t}, t % 2 = 0 → bootSched.tcb t =
      ⟨.running, 0, 0, true, false, some (t / 2), some (t / 2), none⟩ := fun h => if_pos h
  refine ⟨fun _ => rfl, fun c d e => ?_, fun t => ⟨fun h => ?_, fun ⟨c, h⟩ => ?_⟩, fun t => ?_, fun t => ?_,
    fun t => ?_, fun _ => rfl, fun _ => rfl, fun _ => rfl, fun _ => rfl⟩
  · change 2 * c = 2 * d at e
    lia
  · by_cases ht : t % 2 = 0
    · exact ⟨t / 2, by show t = 2 * (t / 2); lia⟩
    · rw [hodd ht] at h
      cases h
  · change t = 2 * c at h
    rw [heven (by lia)]
  · by_cases ht : t % 2 = 0
    · rw [heven ht]
      rfl
    · rw [hodd ht]
      rfl
  · by_cases ht : t % 2 = 0
    · rw [heven ht]
      show 0 < 32
      decide
    · rw [hodd ht]
      show 0 < 32
      decide
  · by_cases ht : t % 2 = 0
    · rw [heven ht]
    · rw [hodd ht]

end Thread
end LkHv
