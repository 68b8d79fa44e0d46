import LkHv.Thread.Sched
import LkHv.Vgic.Sgi

/-!
# CPU_ON (`hv_psci_emulation.c`, `hv_vcpu_start`)

The vCPUs of one VM call CPU_ON and CPU_OFF.  CPU_ON stores the entry point and the argument into its target, looks at
the status under the lock of the target, and resumes the thread; each is a step of its own, and steps of others come
between.  CPU_OFF sets the status, stops the thread, and leaves the CPU.

* `psciVcpuOn`, `advance`, `psciStep`, `psciSys`   the source's, as steps;
* `owed`, `given`, `wrote`, `changed`, `wasOff`, `grants`   ghosts: what a granted call is owed, and what a call did;
* `Transactional`   the claim;
* `CpuOnSafe`       no store changes a vCPU that is on or that another call is at, and CPU_OFF has finished;
* `psci_cpu_on`     no two calls are granted without a CPU_OFF in between; and in safe runs the claim holds.
-/

namespace LkHv
namespace Vcpu
namespace Psci
open Thread (ThreadState)
open Vgic (mpidrToCpuId cpuIdToMpidr)

abbrev Word := BitVec 64

def SMC_SUCCESS : Int := 0
def SMC_INVALID_PARAMETERS : Int := -2
def SMC_DENIED : Int := -3
def SMC_ALREADY_ON : Int := -4

/-- what `psci_vcpu_on` makes of the result of `hv_vcpu_start`, which is 0 or `ERR_BUSY` -/
def smcResult (ret : Int) : Int :=
  if ret = NO_ERROR then SMC_SUCCESS else if ret = ERR_BUSY then SMC_ALREADY_ON else SMC_DENIED

/-- how far the CPU_OFF of a vCPU is -/
inductive OffPc
  | idle
  /-- the status is set -/
  | stopping
  /-- the thread is stopped, and still on its CPU -/
  | leaving
deriving DecidableEq

/-- `struct lk_vcpu` and its thread -/
structure PsciVcpu where
  entry : Word
  args : Word
  status : VcpuStatus
  thread : ThreadState
  /-- the thread has not run since it was created or reset -/
  fresh : Bool
  off : OffPc
  /-- the program counter and `x0` with which the guest was last launched -/
  regs : Word × Word
  /-- what the call that was granted last asked for, until the launch -/
  owed : Option (Word × Word)
  /-- what was owed at the last launch -/
  given : Option (Word × Word)
  /-- the calls that were granted since the last CPU_OFF -/
  grants : Nat

/-- the vCPU is off, by its status -/
def PsciVcpu.IsOff (v : PsciVcpu) : Prop := v.status = .created ∨ v.status = .shutdown

instance (v : PsciVcpu) : Decidable v.IsOff := inferInstanceAs (Decidable (_ ∨ _))

theorem not_isOff_of_ready {v : PsciVcpu} (h : v.status = .ready) : ¬ v.IsOff := by
  rintro (hs | hs)
  · rw [h] at hs
    cases hs
  · rw [h] at hs
    cases hs

/-- how far a CPU_ON is -/
inductive OnPc
  | storeEntry
  | storeArgs
  /-- `hv_vcpu_start`, under the lock -/
  | start
  /-- `thread_resume` -/
  | resume
  | returned (ret : Int)
deriving DecidableEq

/-- a CPU_ON call -/
structure PsciCall where
  mpidr : Nat
  entry : Word
  ctx : Word
  pc : OnPc
  /-- it has stored something -/
  wrote : Bool
  /-- it has stored something else than was there -/
  changed : Bool
  /-- its target had finished CPU_OFF, or was never on -/
  wasOff : Bool

def PsciCall.target (x : PsciCall) : Nat := mpidrToCpuId x.mpidr

/-- the vCPUs of the VM, the calls by their callers, and what `vm_load` found for the primary vCPU -/
structure PsciVm where
  vcpuNum : Nat
  info : Word × Word
  vcpu : Nat → PsciVcpu
  call : Nat → Option PsciCall

/-! ## the functions -/

/-- `psci_vcpu_on` up to its first store -/
def psciVcpuOn (s : PsciVm) (mpidr : Nat) (entry ctx : Word) : PsciCall :=
  ⟨mpidr, entry, ctx, if s.vcpuNum ≤ mpidrToCpuId mpidr then .returned SMC_INVALID_PARAMETERS else .storeEntry,
    false, false, false⟩

/-- what `hv_vcpu_start` does under the lock; `thread_reset` suspends the thread, whatever it was doing -/
def PsciVcpu.started (v : PsciVcpu) (g : Word × Word) : PsciVcpu :=
  let v := if v.status = .shutdown then { v with thread := .suspended, fresh := true } else v
  { v with status := .ready, owed := some g, grants := v.grants + 1 }

def PsciVcpu.threadResume (v : PsciVcpu) : PsciVcpu :=
  if v.thread = .suspended then { v with thread := .ready } else v

/-- a step of the call of `c` -/
def PsciVm.put (s : PsciVm) (c : Nat) (x : PsciCall) (v : PsciVcpu) : PsciVm :=
  { s with call := Function.update s.call c (some x), vcpu := Function.update s.vcpu x.target v }

/-- the next step of `psci_vcpu_on` -/
def PsciVm.advance (s : PsciVm) (c : Nat) (x : PsciCall) : Option PsciVm :=
  let v := s.vcpu x.target
  match x.pc with
  | .storeEntry =>
    some (s.put c { x with pc := .storeArgs, wrote := true, changed := x.changed || decide (v.entry ≠ x.entry) }
      { v with entry := x.entry })
  | .storeArgs =>
    some (s.put c { x with pc := .start, changed := x.changed || decide (v.args ≠ x.ctx) } { v with args := x.ctx })
  | .start =>
    if v.IsOff then
      some (s.put c { x with pc := .resume, wasOff := decide (v.off = .idle) } (v.started (x.entry, x.ctx)))
    else some (s.put c { x with pc := .returned (smcResult ERR_BUSY) } v)
  | .resume => some (s.put c { x with pc := .returned (smcResult NO_ERROR) } v.threadResume)
  | .returned _ => none

/-- `vcpu_entry_primary` and `vcpu_entry_secondary`, up to the launch -/
def PsciVcpu.launch (v : PsciVcpu) (primary : Bool) (info : Word × Word) : PsciVcpu :=
  let v := if primary then { v with entry := info.1, args := info.2 } else v
  { v with regs := (v.entry, v.args), fresh := false, given := v.owed, owed := none }

/-- the CPU_OFF of a vCPU, and its thread -/
inductive VcpuOp
  | off
  | offStop
  | offLeave
  | run
  | preempt
  | launch

def vcpuStep (info : Word × Word) (i : Nat) (v : PsciVcpu) : VcpuOp → Option PsciVcpu
  | .off =>
    if v.thread = .running ∧ v.fresh = false ∧ v.off = .idle ∧ ¬ v.IsOff then
      some { v with status := .shutdown, off := .stopping, grants := 0 }
    else none
  | .offStop => if v.off = .stopping then some { v with thread := .blocked, off := .leaving } else none
  | .offLeave => if v.off = .leaving then some { v with fresh := false, off := .idle } else none
  | .run => if v.thread = .ready then some { v with thread := .running } else none
  | .preempt => if v.thread = .running then some { v with thread := .ready } else none
  | .launch => if v.thread = .running ∧ v.fresh = true then some (v.launch (i = 0) info) else none

/-- the call has not returned -/
def OnPc.live : OnPc → Bool
  | .returned _ => false
  | _ => true

inductive PsciOp
  /-- a vCPU calls CPU_ON -/
  | call (c mpidr : Nat) (entry ctx : Word)
  | advance (c : Nat)
  | vcpu (i : Nat) (op : VcpuOp)

/-- a vCPU that is in no call -/
def PsciVm.Idle (s : PsciVm) (c : Nat) : Prop := ∀ x ∈ s.call c, x.pc.live = false

instance (s : PsciVm) (c : Nat) : Decidable (s.Idle c) := inferInstanceAs (Decidable (∀ x ∈ s.call c, _))

def psciStep (s : PsciVm) : PsciOp → Option PsciVm
  | .call c mpidr entry ctx =>
    if c < s.vcpuNum ∧ s.Idle c then
      some { s with call := Function.update s.call c (some (psciVcpuOn s mpidr entry ctx)) }
    else none
  | .advance c => (s.call c).bind fun x => s.advance c x
  | .vcpu i op =>
    (vcpuStep s.info i (s.vcpu i) op).map fun v => { s with vcpu := Function.update s.vcpu i v }

/-- no call is under way; a vCPU that was created and not started has a new thread, and no CPU_OFF is under way -/
structure PsciInit (s : PsciVm) : Prop where
  call : ∀ c, s.call c = none
  created : ∀ i, (s.vcpu i).status = .created → (s.vcpu i).thread = .suspended ∧ (s.vcpu i).fresh = true
  idle : ∀ i, (s.vcpu i).off = .idle
  owed : ∀ i, (s.vcpu i).owed = none ∧ (s.vcpu i).given = none ∧ (s.vcpu i).grants = 0

def psciSys : Machine PsciVm PsciOp := Machine.ofFun PsciInit psciStep

/-! ## the law -/

/-- the MPIDR of a vCPU of the VM -/
def PsciVm.IsVcpu (s : PsciVm) (mpidr : Nat) : Prop := ∃ i < s.vcpuNum, mpidr = cpuIdToMpidr i

/-- a vCPU that is owed a start is going to start: its thread has not run yet and is ready or runs, or the call is
about to resume it -/
def PsciVm.Starting (s : PsciVm) (i : Nat) : Prop :=
  (s.vcpu i).fresh = true ∧ (s.vcpu i).off = .idle ∧ ((s.vcpu i).thread = .ready ∨ (s.vcpu i).thread = .running ∨
      ((s.vcpu i).thread = .suspended ∧ ∃ c x, s.call c = some x ∧ x.target = i ∧ x.pc = .resume))

/-- **The claim** -/
structure Transactional (s : PsciVm) : Prop where
  /-- a call that fails leaves its target as it was -/
  kept : ∀ c x ret, s.call c = some x → x.pc = .returned ret → ret ≠ SMC_SUCCESS → x.changed = false
  /-- an MPIDR of no vCPU is refused, and nothing is stored -/
  invalid : ∀ c x ret, s.call c = some x → x.pc = .returned ret → ¬ s.IsVcpu x.mpidr →
    ret = SMC_INVALID_PARAMETERS ∧ x.wrote = false
  /-- a call that succeeds had a target that was off -/
  wasOff : ∀ c x, s.call c = some x → x.pc = .returned SMC_SUCCESS → x.wasOff = true
  /-- a call that is granted is owed what it asked for -/
  granted : ∀ c x, s.call c = some x → x.pc = .resume → (s.vcpu x.target).owed = some (x.entry, x.ctx)
  /-- what is owed stands in the target, and the target is going to start -/
  waiting : ∀ i g, (s.vcpu i).owed = some g → ((s.vcpu i).entry, (s.vcpu i).args) = g ∧ s.Starting i
  /-- and it starts so -/
  started : ∀ i g, (s.vcpu i).given = some g → (s.vcpu i).regs = g

/-- the call of `d` is at the vCPU `i` -/
def PsciVm.At (s : PsciVm) (d i : Nat) : Prop := ∃ x ∈ s.call d, x.pc.live = true ∧ x.target = i

/-- it has changed something there -/
def PsciVm.Changed (s : PsciVm) (d i : Nat) : Prop :=
  ∃ x ∈ s.call d, x.pc.live = true ∧ x.target = i ∧ x.changed = true

instance (s : PsciVm) (d i : Nat) : Decidable (s.At d i) := inferInstanceAs (Decidable (∃ x ∈ s.call d, _))

instance (s : PsciVm) (d i : Nat) : Decidable (s.Changed d i) := inferInstanceAs (Decidable (∃ x ∈ s.call d, _))

/-- a store that changes nothing; or the target is off, is not the primary vCPU, and no other call is at it -/
def PsciVm.StoreSafe (s : PsciVm) (c i : Nat) (old val : Word) : Prop :=
  old = val ∨ ((s.vcpu i).IsOff ∧ i ≠ 0 ∧ ∀ d < s.vcpuNum, d ≠ c → ¬ s.At d i)

/-- if the target is off, then it has finished CPU_OFF, is not the primary vCPU, and no other call has changed it -/
def PsciVm.StartSafe (s : PsciVm) (c i : Nat) : Prop :=
  (s.vcpu i).IsOff → (s.vcpu i).off = .idle ∧ i ≠ 0 ∧ ∀ d < s.vcpuNum, d ≠ c → ¬ s.Changed d i

/-- the next step of a call -/
def PsciVm.AdvanceSafe (s : PsciVm) (c : Nat) (x : PsciCall) : Prop :=
  (x.pc = .storeEntry → s.StoreSafe c x.target (s.vcpu x.target).entry x.entry) ∧
    (x.pc = .storeArgs → s.StoreSafe c x.target (s.vcpu x.target).args x.ctx) ∧
    (x.pc = .start → s.StartSafe c x.target)

/-- **The condition**; an MPIDR is that of the vCPU it is taken for, or past the last vCPU -/
def CpuOnSafe (s : PsciVm) : PsciOp → Prop
  | .call _ mpidr _ _ => s.vcpuNum ≤ mpidrToCpuId mpidr ∨ mpidr = cpuIdToMpidr (mpidrToCpuId mpidr)
  | .advance c => ∀ x ∈ s.call c, s.AdvanceSafe c x
  | .vcpu _ _ => True

instance (s : PsciVm) (c i : Nat) (old val : Word) : Decidable (s.StoreSafe c i old val) :=
  inferInstanceAs (Decidable (_ ∨ _))

instance (s : PsciVm) (c i : Nat) : Decidable (s.StartSafe c i) := inferInstanceAs (Decidable (_ → _))

instance (s : PsciVm) (c : Nat) (x : PsciCall) : Decidable (s.AdvanceSafe c x) :=
  inferInstanceAs (Decidable (_ ∧ _ ∧ _))

instance : ∀ (s : PsciVm) (op : PsciOp), Decidable (CpuOnSafe s op)
  | _, .call _ _ _ _ => inferInstanceAs (Decidable (_ ∨ _))
  | s, .advance c => inferInstanceAs (Decidable (∀ x ∈ s.call c, _))
  | _, .vcpu _ _ => .isTrue trivial

/-! ## the invariant -/

/-- a vCPU in a safe run -/
structure VcpuInv (i : Nat) (v : PsciVcpu) : Prop where
  created : v.status = .created → v.thread = .suspended ∧ v.fresh = true ∧ v.off = .idle
  off : v.off ≠ .idle → v.status = .shutdown
  owed : ∀ g, v.owed = some g → (v.entry, v.args) = g ∧ ¬ v.IsOff ∧ v.fresh = true ∧ v.off = .idle ∧ i ≠ 0 ∧
    (v.thread = .ready ∨ v.thread = .running ∨ v.thread = .suspended)
  given : ∀ g, v.given = some g → v.regs = g

/-- a call in a safe run, with its target -/
structure CallInv (n : Nat) (v : PsciVcpu) (x : PsciCall) : Prop where
  /-- a call that was not refused has the MPIDR of a vCPU -/
  mpidr : x.pc = .returned SMC_INVALID_PARAMETERS ∨ (x.target < n ∧ x.mpidr = cpuIdToMpidr x.target)
  refused : x.pc = .returned SMC_INVALID_PARAMETERS → x.wrote = false ∧ x.changed = false
  entry : x.pc = .storeArgs ∨ x.pc = .start → x.target ≠ 0 → v.entry = x.entry
  args : x.pc = .start → x.target ≠ 0 → v.args = x.ctx
  changed : x.changed = true → x.pc = .storeEntry ∨ x.pc = .storeArgs ∨ x.pc = .start → v.IsOff ∧ x.target ≠ 0
  granted : x.pc = .resume → v.owed = some (x.entry, x.ctx) ∧ v.thread = .suspended
  wasOff : x.pc = .resume ∨ x.pc = .returned SMC_SUCCESS → x.wasOff = true
  failed : ∀ ret, x.pc = .returned ret → ret ≠ SMC_SUCCESS → x.changed = false

/-- **The invariant** of safe runs -/
structure PsciInv (s : PsciVm) : Prop where
  vcpu : ∀ i, VcpuInv i (s.vcpu i)
  caller : ∀ c x, s.call c = some x → c < s.vcpuNum
  call : ∀ c x, s.call c = some x → CallInv s.vcpuNum (s.vcpu x.target) x
  /-- only one call is about to resume a vCPU -/
  single : ∀ c d x y, s.call c = some x → s.call d = some y → x.pc = .resume → y.pc = .resume →
    x.target = y.target → c = d
  waiting : ∀ i g, (s.vcpu i).owed = some g → (s.vcpu i).thread = .suspended →
    ∃ c x, s.call c = some x ∧ x.target = i ∧ x.pc = .resume

theorem PsciInv.transactional {s : PsciVm} (h : PsciInv s) : Transactional s := by
  refine ⟨fun c x ret hx hret hne => (h.call c x hx).failed ret hret hne, fun c x ret hx hret hno => ?_,
    fun c x hx hret => (h.call c x hx).wasOff (.inr hret), fun c x hx hpc => ((h.call c x hx).granted hpc).1,
    fun i g hg => ?_, fun i g hg => (h.vcpu i).given g hg⟩
  · rcases (h.call c x hx).mpidr with hinv | ⟨hlt, he⟩
    · rw [hinv] at hret
      cases hret
      exact ⟨rfl, ((h.call c x hx).refused hinv).1⟩
    · exact absurd ⟨x.target, hlt, he⟩ hno
  · obtain ⟨heq, -, hfresh, hoff, -, hthread⟩ := (h.vcpu i).owed g hg
    refine ⟨heq, hfresh, hoff, ?_⟩
    rcases hthread with ht | ht | ht
    · exact .inl ht
    · exact .inr (.inl ht)
    · exact .inr (.inr ⟨ht, h.waiting i g hg ht⟩)

theorem psciInit_inv {s : PsciVm} (h : PsciInit s) : PsciInv s := by
  have hno : ∀ c x, s.call c ≠ some x := fun c x hx => by rw [h.call c] at hx; cases hx
  have howed : ∀ i g, (s.vcpu i).owed ≠ some g := fun i g hg => by rw [(h.owed i).1] at hg; cases hg
  refine ⟨fun i => ⟨fun hc => ?_, fun hoff => absurd (h.idle i) hoff, fun g hg => absurd hg (howed i g),
    fun g hg => ?_⟩, fun c x hx => absurd hx (hno c x), fun c x hx => absurd hx (hno c x),
    fun c d x y hx => absurd hx (hno c x), fun i g hg => absurd hg (howed i g)⟩
  · exact ⟨(h.created i hc).1, (h.created i hc).2, h.idle i⟩
  · rw [(h.owed i).2.1] at hg
    cases hg

/-! ## the steps of a vCPU -/

section
variable {v v' : PsciVcpu} {x : PsciCall} {n i : Nat} {info : Word × Word}

theorem launch_status (v : PsciVcpu) (b : Bool) (info : Word × Word) : (v.launch b info).status = v.status := by
  cases b <;> rfl

theorem launch_off (v : PsciVcpu) (b : Bool) (info : Word × Word) : (v.launch b info).off = v.off := by
  cases b <;> rfl

theorem launch_thread (v : PsciVcpu) (b : Bool) (info : Word × Word) : (v.launch b info).thread = v.thread := by
  cases b <;> rfl

theorem launch_given (v : PsciVcpu) (b : Bool) (info : Word × Word) : (v.launch b info).given = v.owed := by
  cases b <;> rfl

/-- **A step of CPU_OFF or of the thread** keeps what is known of the vCPU. -/
theorem VcpuInv.step (h : VcpuInv i v) {op : VcpuOp} (hs : vcpuStep info i v op = some v') : VcpuInv i v' := by
  cases op with
  | off =>
    obtain ⟨hg, hv⟩ := Option.ite_none_right_eq_some.mp hs
    obtain ⟨hrun, hfresh, hidle, hon⟩ := hg
    cases hv
    refine ⟨fun hc => (nomatch hc), fun _ => rfl, fun g hg => ?_, h.given⟩
    have hf := (h.owed g hg).2.2.1
    rw [hfresh] at hf
    cases hf
  | offStop =>
    obtain ⟨hstop, hv⟩ := Option.ite_none_right_eq_some.mp hs
    cases hv
    have hsd := h.off (by rw [hstop]; decide)
    refine ⟨fun hc => ?_, fun _ => hsd, fun g hg => absurd (.inr hsd) (h.owed g hg).2.1, h.given⟩
    rw [hsd] at hc
    cases hc
  | offLeave =>
    obtain ⟨hleave, hv⟩ := Option.ite_none_right_eq_some.mp hs
    cases hv
    have hsd := h.off (by rw [hleave]; decide)
    refine ⟨fun hc => ?_, fun hne => absurd rfl hne, fun g hg => absurd (.inr hsd) (h.owed g hg).2.1, h.given⟩
    rw [hsd] at hc
    cases hc
  | run =>
    obtain ⟨hready, hv⟩ := Option.ite_none_right_eq_some.mp hs
    cases hv
    refine ⟨fun hc => ?_, h.off, fun g hg => ?_, h.given⟩
    · have ht := (h.created hc).1
      rw [hready] at ht
      cases ht
    · obtain ⟨h1, h2, h3, h4, h5, -⟩ := h.owed g hg
      exact ⟨h1, h2, h3, h4, h5, .inr (.inl rfl)⟩
  | preempt =>
    obtain ⟨hrun, hv⟩ := Option.ite_none_right_eq_some.mp hs
    cases hv
    refine ⟨fun hc => ?_, h.off, fun g hg => ?_, h.given⟩
    · have ht := (h.created hc).1
      rw [hrun] at ht
      cases ht
    · obtain ⟨h1, h2, h3, h4, h5, -⟩ := h.owed g hg
      exact ⟨h1, h2, h3, h4, h5, .inl rfl⟩
  | launch =>
    obtain ⟨⟨hrun, hfresh⟩, hv⟩ := Option.ite_none_right_eq_some.mp hs
    cases hv
    refine ⟨fun hc => ?_, fun hoff => ?_, fun g hg => (nomatch hg), fun g hg => ?_⟩
    · rw [launch_status] at hc
      have ht := (h.created hc).1
      rw [hrun] at ht
      cases ht
    · rw [launch_off] at hoff
      rw [launch_status]
      exact h.off hoff
    · rw [launch_given] at hg
      obtain ⟨heq, -, -, -, hne, -⟩ := h.owed g hg
      rw [decide_eq_false hne]
      exact heq

/-- nor of a call at it: only a launch of the primary vCPU changes what was stored -/
theorem CallInv.step (h : CallInv n v x) (hv : VcpuInv x.target v) {op : VcpuOp}
    (hs : vcpuStep info x.target v op = some v') : CallInv n v' x := by
  -- a vCPU that is owed a start does none of these while its thread is suspended
  have hgr : x.pc = .resume → v'.owed = some (x.entry, x.ctx) ∧ v'.thread = .suspended := by
    intro hpc
    obtain ⟨howed, hsus⟩ := h.granted hpc
    obtain ⟨-, hon, hfresh, hidle, -, -⟩ := hv.owed _ howed
    exfalso
    cases op with
    | off => exact absurd (hsus.symm.trans (Option.ite_none_right_eq_some.mp hs).1.1) (by decide)
    | offStop => exact absurd (hidle.symm.trans (Option.ite_none_right_eq_some.mp hs).1) (by decide)
    | offLeave => exact absurd (hidle.symm.trans (Option.ite_none_right_eq_some.mp hs).1) (by decide)
    | run => exact absurd (hsus.symm.trans (Option.ite_none_right_eq_some.mp hs).1) (by decide)
    | preempt => exact absurd (hsus.symm.trans (Option.ite_none_right_eq_some.mp hs).1) (by decide)
    | launch => exact absurd (hsus.symm.trans (Option.ite_none_right_eq_some.mp hs).1.1) (by decide)
  have hkeep : x.target ≠ 0 → v'.entry = v.entry ∧ v'.args = v.args := by
    intro hne
    cases op with
    | launch =>
      cases (Option.ite_none_right_eq_some.mp hs).2
      rw [decide_eq_false hne]
      exact ⟨rfl, rfl⟩
    | _ =>
      cases (Option.ite_none_right_eq_some.mp hs).2
      exact ⟨rfl, rfl⟩
  have hoff : v.IsOff → v'.IsOff := by
    intro ho
    cases op with
    | off =>
      cases (Option.ite_none_right_eq_some.mp hs).2
      exact .inr rfl
    | launch =>
      cases (Option.ite_none_right_eq_some.mp hs).2
      unfold PsciVcpu.IsOff
      rw [launch_status]
      exact ho
    | _ =>
      cases (Option.ite_none_right_eq_some.mp hs).2
      exact ho
  exact ⟨h.mpidr, h.refused, fun hpc hne => (hkeep hne).1.trans (h.entry hpc hne),
    fun hpc hne => (hkeep hne).2.trans (h.args hpc hne),
    fun hc hpc => ⟨hoff (h.changed hc hpc).1, (h.changed hc hpc).2⟩, hgr, h.wasOff, h.failed⟩

/-- a thread is suspended by its creation or by a start only -/
theorem suspended_step {op : VcpuOp} (hs : vcpuStep info i v op = some v') (h : v'.thread = .suspended) :
    v.thread = .suspended ∧ (∀ g, v'.owed = some g → v.owed = some g) := by
  cases op with
  | off =>
    cases (Option.ite_none_right_eq_some.mp hs).2
    exact ⟨h, fun _ hg => hg⟩
  | offLeave =>
    cases (Option.ite_none_right_eq_some.mp hs).2
    exact ⟨h, fun _ hg => hg⟩
  | launch =>
    cases (Option.ite_none_right_eq_some.mp hs).2
    rw [launch_thread] at h
    exact ⟨h, fun _ hg => nomatch hg⟩
  | _ =>
    cases (Option.ite_none_right_eq_some.mp hs).2
    cases h

end

/-! ## the steps of a call -/

section
variable {s : PsciVm} {c : Nat} {x : PsciCall}

theorem returned_of_not_live {pc : OnPc} (h : pc.live = false) : ∃ ret, pc = .returned ret := by
  cases pc with
  | returned ret => exact ⟨ret, rfl⟩
  | _ => cases h

/-- a call that has returned does not look at the vCPU -/
theorem CallInv.of_returned {n : Nat} {v : PsciVcpu} {ret : Int} (h : CallInv n v x) (hret : x.pc = .returned ret)
    (v' : PsciVcpu) : CallInv n v' x := by
  refine ⟨h.mpidr, h.refused, fun hpc => ?_, fun hpc => ?_, fun _ hpc => ?_, fun hpc => ?_, h.wasOff, h.failed⟩
  · rw [hret] at hpc
    rcases hpc with hpc | hpc <;> cases hpc
  · rw [hret] at hpc
    cases hpc
  · rw [hret] at hpc
    rcases hpc with hpc | hpc | hpc <;> cases hpc
  · rw [hret] at hpc
    cases hpc

/-- a call that is under way was not refused -/
theorem CallInv.live_mpidr {n : Nat} {v : PsciVcpu} (h : CallInv n v x) (hl : x.pc.live = true) {pc : OnPc} :
    pc = .returned SMC_INVALID_PARAMETERS ∨ (x.target < n ∧ x.mpidr = cpuIdToMpidr x.target) := by
  rcases h.mpidr with hret | hm
  · rw [hret] at hl
    cases hl
  · exact .inr hm

/-- **The frame of a step of a call**: the others at its target, and what is owed there, have to be looked after -/
theorem PsciInv.put (h : PsciInv s) (hx : s.call c = some x) {x' : PsciCall} {v' : PsciVcpu}
    (ht : x'.target = x.target) (hv : VcpuInv x.target v') (hc : CallInv s.vcpuNum v' x')
    (hothers : ∀ d y, d ≠ c → s.call d = some y → y.target = x.target → CallInv s.vcpuNum v' y)
    (hsingle : x'.pc = .resume → ∀ d y, s.call d = some y → y.pc = .resume → y.target ≠ x.target)
    (hwait : ∀ g, v'.owed = some g → v'.thread = .suspended →
      x'.pc = .resume ∨ ∃ d y, d ≠ c ∧ s.call d = some y ∧ y.target = x.target ∧ y.pc = .resume) :
    PsciInv (s.put c x' v') := by
  have hcall : ∀ d y, (s.put c x' v').call d = some y → (d = c ∧ y = x') ∨ (d ≠ c ∧ s.call d = some y) := by
    intro d y hy
    change Function.update s.call c (some x') d = some y at hy
    by_cases hd : d = c
    · rw [hd, Function.update_self] at hy
      exact .inl ⟨hd, (Option.some.inj hy).symm⟩
    · rw [Function.update_of_ne hd] at hy
      exact .inr ⟨hd, hy⟩
  have hself : (s.put c x' v').vcpu x.target = v' := by
    show Function.update s.vcpu x'.target v' x.target = v'
    rw [ht, Function.update_self]
  have hother : ∀ i, i ≠ x.target → (s.put c x' v').vcpu i = s.vcpu i := by
    intro i hi
    show Function.update s.vcpu x'.target v' i = s.vcpu i
    rw [ht, Function.update_of_ne hi]
  refine ⟨fun i => ?_, fun d y hy => ?_, fun d y hy => ?_, fun d e y z hy hz hyp hzp hyz => ?_, fun i g hg hsus => ?_⟩
  · by_cases hi : i = x.target
    · rw [hi, hself]
      exact hv
    · rw [hother i hi]
      exact h.vcpu i
  · rcases hcall d y hy with ⟨rfl, -⟩ | ⟨-, hy⟩
    · exact h.caller _ x hx
    · exact h.caller d y hy
  · rcases hcall d y hy with ⟨-, rfl⟩ | ⟨hd, hy⟩
    · rw [ht, hself]
      exact hc
    · by_cases hyt : y.target = x.target
      · rw [hyt, hself]
        exact hothers d y hd hy hyt
      · rw [hother _ hyt]
        exact h.call d y hy
  · rcases hcall d y hy with ⟨hd, rfl⟩ | ⟨hd, hy'⟩
    · rcases hcall e z hz with ⟨he, -⟩ | ⟨-, hz'⟩
      · rw [hd, he]
      · exact absurd (hyz.symm.trans ht) (hsingle hyp e z hz' hzp)
    · rcases hcall e z hz with ⟨-, rfl⟩ | ⟨-, hz'⟩
      · exact absurd (hyz.trans ht) (hsingle hzp d y hy' hyp)
      · exact h.single d e y z hy' hz' hyp hzp hyz
  · have hnew : ∀ d y, d ≠ c → s.call d = some y → (s.put c x' v').call d = some y :=
      fun d y hd hy => (Function.update_of_ne hd _ _).trans hy
    by_cases hi : i = x.target
    · rw [hi, hself] at hg hsus
      rcases hwait g hg hsus with hpc | ⟨d, y, hd, hy, hyt, hyp⟩
      · exact ⟨c, x', Function.update_self _ _ _, ht.trans hi.symm, hpc⟩
      · exact ⟨d, y, hnew d y hd hy, hyt.trans hi.symm, hyp⟩
    · rw [hother i hi] at hg hsus
      obtain ⟨d, y, hy, hyt, hyp⟩ := h.waiting i g hg hsus
      refine ⟨d, y, hnew d y (fun hd => ?_) hy, hyt, hyp⟩
      rw [hd, hx] at hy
      cases hy
      exact hi hyt.symm

/-- a store that is safe does not concern the other calls -/
theorem PsciInv.store_others (h : PsciInv s) {old val : Word} (hsafe : s.StoreSafe c x.target old val) {v' : PsciVcpu}
    (hsame : old = val → v' = s.vcpu x.target) {d : Nat} {y : PsciCall} (hd : d ≠ c) (hy : s.call d = some y)
    (hyt : y.target = x.target) : CallInv s.vcpuNum v' y := by
  have hcall := h.call d y hy
  rcases hsafe with he | ⟨-, -, hno⟩
  · rw [hsame he, ← hyt]
    exact hcall
  · have hlive : y.pc.live = false := by
      by_contra hl
      exact hno d (h.caller d y hy) hd ⟨y, hy, (Bool.not_eq_false _).mp hl, hyt⟩
    obtain ⟨ret, hret⟩ := returned_of_not_live hlive
    exact hcall.of_returned hret v'

/-- who is waiting for a call that is not this one -/
theorem PsciInv.waiting_other (h : PsciInv s) (hx : s.call c = some x) (hpc : x.pc ≠ .resume) {g : Word × Word}
    (hg : (s.vcpu x.target).owed = some g) (hsus : (s.vcpu x.target).thread = .suspended) :
    ∃ d y, d ≠ c ∧ s.call d = some y ∧ y.target = x.target ∧ y.pc = .resume := by
  obtain ⟨d, y, hy, hyt, hyp⟩ := h.waiting x.target g hg hsus
  refine ⟨d, y, fun hd => ?_, hy, hyt, hyp⟩
  rw [hd, hx] at hy
  cases hy
  exact hpc hyp

/-- the store of the entry point -/
theorem PsciInv.storeEntry (h : PsciInv s) (hx : s.call c = some x) (hpc : x.pc = .storeEntry)
    (hsafe : s.StoreSafe c x.target (s.vcpu x.target).entry x.entry) :
    PsciInv (s.put c { x with pc := .storeArgs, wrote := true,
                              changed := x.changed || decide ((s.vcpu x.target).entry ≠ x.entry) }
      { s.vcpu x.target with entry := x.entry }) := by
  have hv := h.vcpu x.target
  have hc := h.call c x hx
  refine h.put hx rfl ⟨hv.created, hv.off, fun g hg => ?_, hv.given⟩ ⟨?_, fun hret => (nomatch hret),
    fun _ _ => rfl, fun hs => (nomatch hs), fun hch _ => ?_, fun hr => (nomatch hr), fun hr => ?_,
    fun ret hret => (nomatch hret)⟩ (fun d y hd hy hyt => h.store_others hsafe (fun he => ?_) hd hy hyt)
    (fun hr => (nomatch hr)) fun g hg hsus => .inr (h.waiting_other hx (by rw [hpc]; decide) hg hsus)
  · obtain ⟨heq, hon, hrest⟩ := hv.owed g hg
    rcases hsafe with he | ⟨hoff, -⟩
    · exact ⟨he ▸ heq, hon, hrest⟩
    · exact absurd hoff hon
  · exact hc.live_mpidr (by rw [hpc]; rfl)
  · rcases Bool.or_eq_true_iff.mp hch with hold | hnew
    · exact hc.changed hold (.inl hpc)
    · rcases hsafe with he | ⟨hoff, hne, -⟩
      · exact absurd he (of_decide_eq_true hnew)
      · exact ⟨hoff, hne⟩
  · rcases hr with hr | hr <;> cases hr
  · rw [← he]

/-- the store of the argument -/
theorem PsciInv.storeArgs (h : PsciInv s) (hx : s.call c = some x) (hpc : x.pc = .storeArgs)
    (hsafe : s.StoreSafe c x.target (s.vcpu x.target).args x.ctx) :
    PsciInv (s.put c { x with pc := .start, changed := x.changed || decide ((s.vcpu x.target).args ≠ x.ctx) }
      { s.vcpu x.target with args := x.ctx }) := by
  have hv := h.vcpu x.target
  have hc := h.call c x hx
  refine h.put hx rfl ⟨hv.created, hv.off, fun g hg => ?_, hv.given⟩ ⟨?_, fun hret => (nomatch hret),
    fun _ hne => hc.entry (.inl hpc) hne, fun _ _ => rfl, fun hch _ => ?_, fun hr => (nomatch hr), fun hr => ?_,
    fun ret hret => (nomatch hret)⟩ (fun d y hd hy hyt => h.store_others hsafe (fun he => ?_) hd hy hyt)
    (fun hr => (nomatch hr)) fun g hg hsus => .inr (h.waiting_other hx (by rw [hpc]; decide) hg hsus)
  · obtain ⟨heq, hon, hrest⟩ := hv.owed g hg
    rcases hsafe with he | ⟨hoff, -⟩
    · exact ⟨he ▸ heq, hon, hrest⟩
    · exact absurd hoff hon
  · exact hc.live_mpidr (by rw [hpc]; rfl)
  · rcases Bool.or_eq_true_iff.mp hch with hold | hnew
    · exact hc.changed hold (.inr (.inl hpc))
    · rcases hsafe with he | ⟨hoff, hne, -⟩
      · exact absurd he (of_decide_eq_true hnew)
      · exact ⟨hoff, hne⟩
  · rcases hr with hr | hr <;> cases hr
  · rw [← he]

/-- the vCPU is on -/
theorem PsciInv.refused (h : PsciInv s) (hx : s.call c = some x) (hpc : x.pc = .start)
    (hon : ¬ (s.vcpu x.target).IsOff) :
    PsciInv (s.put c { x with pc := .returned (smcResult ERR_BUSY) } (s.vcpu x.target)) := by
  have hc := h.call c x hx
  have hsame : x.changed = false := by
    by_contra hch
    exact hon (hc.changed ((Bool.not_eq_false _).mp hch) (.inr (.inr hpc))).1
  refine h.put hx rfl (h.vcpu x.target) ⟨?_, fun hret => (nomatch hret), fun hs => ?_, fun hs => (nomatch hs),
    fun _ hs => ?_, fun hr => (nomatch hr), fun hr => ?_, fun _ _ _ => hsame⟩
    (fun d y _ hy hyt => hyt ▸ h.call d y hy) (fun hr => (nomatch hr))
    fun g hg hsus => .inr (h.waiting_other hx (by rw [hpc]; decide) hg hsus)
  · exact hc.live_mpidr (by rw [hpc]; rfl)
  · rcases hs with hs | hs <;> cases hs
  · rcases hs with hs | hs | hs <;> cases hs
  · rcases hr with hr | hr <;> cases hr

/-- a vCPU that `hv_vcpu_start` has started -/
structure Started (v v' : PsciVcpu) (g : Word × Word) : Prop where
  entry : v'.entry = v.entry
  args : v'.args = v.args
  status : v'.status = .ready
  thread : v'.thread = .suspended
  fresh : v'.fresh = true
  off : v'.off = v.off
  regs : v'.regs = v.regs
  owed : v'.owed = some g
  given : v'.given = v.given

theorem VcpuInv.started {i : Nat} {v : PsciVcpu} (h : VcpuInv i v) (hoff : v.IsOff) (g : Word × Word) :
    Started v (v.started g) g := by
  unfold PsciVcpu.started
  split
  · exact ⟨rfl, rfl, rfl, rfl, rfl, rfl, rfl, rfl, rfl⟩
  · rename_i hne
    obtain ⟨hthread, hfresh, -⟩ := h.created (hoff.resolve_right hne)
    exact ⟨rfl, rfl, rfl, hthread, hfresh, rfl, rfl, rfl, rfl⟩

/-- the vCPU is off -/
theorem PsciInv.granted (h : PsciInv s) (hx : s.call c = some x) (hpc : x.pc = .start)
    (hoff : (s.vcpu x.target).IsOff) (hsafe : s.StartSafe c x.target) :
    PsciInv (s.put c { x with pc := .resume, wasOff := decide ((s.vcpu x.target).off = .idle) }
      ((s.vcpu x.target).started (x.entry, x.ctx))) := by
  have hv := h.vcpu x.target
  have hc := h.call c x hx
  obtain ⟨hidle, hne, hno⟩ := hsafe hoff
  have hst := hv.started hoff (x.entry, x.ctx)
  have hon : ¬ ((s.vcpu x.target).started (x.entry, x.ctx)).IsOff := not_isOff_of_ready hst.status
  have hnone : (s.vcpu x.target).owed = none := by
    by_contra howed
    obtain ⟨g, hg⟩ := Option.ne_none_iff_exists'.mp howed
    exact (hv.owed g hg).2.1 hoff
  refine h.put hx rfl ⟨fun hcr => ?_, fun hne => ?_, fun g hg => ?_, fun g hg => ?_⟩ ⟨?_, fun hret => (nomatch hret),
    fun hs => ?_, fun hs => (nomatch hs), fun _ hs => ?_, fun _ => ⟨hst.owed, hst.thread⟩,
    fun _ => decide_eq_true hidle, fun ret hret => (nomatch hret)⟩ (fun d y hd hy hyt => ?_)
    (fun _ d y hy hyp hyt => ?_) fun _ _ _ => .inl rfl
  · rw [hst.status] at hcr
    cases hcr
  · exact absurd (hst.off.trans hidle) hne
  · rw [hst.owed] at hg
    cases hg
    refine ⟨?_, hon, hst.fresh, hst.off.trans hidle, hne, .inr (.inr hst.thread)⟩
    rw [hst.entry, hst.args, hc.entry (.inr hpc) hne, hc.args hpc hne]
  · rw [hst.given] at hg
    rw [hst.regs]
    exact hv.given g hg
  · exact hc.live_mpidr (by rw [hpc]; rfl)
  · rcases hs with hs | hs <;> cases hs
  · rcases hs with hs | hs | hs <;> cases hs
  · -- another call has the same values, and has changed nothing
    have hcy := h.call d y hy
    rw [hyt] at hcy
    refine ⟨hcy.mpidr, hcy.refused, fun hp hz => hst.entry.trans (hcy.entry hp hz),
      fun hp hz => hst.args.trans (hcy.args hp hz), fun hch hp => ?_, fun hp => ?_, hcy.wasOff, hcy.failed⟩
    · have hlive : y.pc.live = true := by
        rcases hp with hp | hp | hp <;> rw [hp] <;> rfl
      exact absurd ⟨y, hy, hlive, hyt, hch⟩ (hno d (h.caller d y hy) hd)
    · have ho := (hcy.granted hp).1
      rw [hnone] at ho
      cases ho
  · have ho := ((h.call d y hy).granted hyp).1
    rw [hyt, hnone] at ho
    cases ho

/-- the thread is resumed -/
theorem PsciInv.resumed (h : PsciInv s) (hx : s.call c = some x) (hpc : x.pc = .resume) :
    PsciInv (s.put c { x with pc := .returned (smcResult NO_ERROR) } (s.vcpu x.target).threadResume) := by
  have hv := h.vcpu x.target
  have hc := h.call c x hx
  obtain ⟨howed, hsus⟩ := hc.granted hpc
  obtain ⟨heq, hon, hfresh, hidle, hne, -⟩ := hv.owed _ howed
  have hres : (s.vcpu x.target).threadResume = { s.vcpu x.target with thread := .ready } := if_pos hsus
  rw [hres]
  refine h.put hx rfl ⟨fun hcr => absurd (.inl hcr) hon, hv.off, fun g hg => ?_, hv.given⟩ ⟨?_,
    fun hret => (nomatch hret), fun hs => ?_, fun hs => (nomatch hs), fun _ hs => ?_, fun hr => (nomatch hr),
    fun _ => hc.wasOff (.inl hpc), fun ret hret hn => ?_⟩ (fun d y hd hy hyt => ?_) (fun hr => (nomatch hr))
    fun g _ ht => (nomatch ht)
  · obtain ⟨h1, h2, h3, h4, h5, -⟩ := hv.owed g hg
    exact ⟨h1, h2, h3, h4, h5, .inl rfl⟩
  · exact hc.live_mpidr (by rw [hpc]; rfl)
  · rcases hs with hs | hs <;> cases hs
  · rcases hs with hs | hs | hs <;> cases hs
  · cases hret
    exact absurd rfl hn
  · have hcy := h.call d y hy
    rw [hyt] at hcy
    refine ⟨hcy.mpidr, hcy.refused, hcy.entry, hcy.args, hcy.changed, fun hp => ?_, hcy.wasOff, hcy.failed⟩
    exact absurd (h.single d c y x hy hx hp hpc hyt) hd

/-- a call begins -/
theorem PsciInv.called (h : PsciInv s) {mpidr : Nat} {entry ctx : Word} (hlt : c < s.vcpuNum) (hidle : s.Idle c)
    (hsafe : CpuOnSafe s (.call c mpidr entry ctx)) :
    PsciInv { s with call := Function.update s.call c (some (psciVcpuOn s mpidr entry ctx)) } := by
  have hpc : (psciVcpuOn s mpidr entry ctx).pc = .returned SMC_INVALID_PARAMETERS ∨
      (psciVcpuOn s mpidr entry ctx).pc = .storeEntry ∧ mpidrToCpuId mpidr < s.vcpuNum := by
    by_cases hle : s.vcpuNum ≤ mpidrToCpuId mpidr
    · exact .inl (if_pos hle)
    · exact .inr ⟨if_neg hle, not_le.mp hle⟩
  have hnew : CallInv s.vcpuNum (s.vcpu (psciVcpuOn s mpidr entry ctx).target) (psciVcpuOn s mpidr entry ctx) := by
    refine ⟨?_, fun _ => ⟨rfl, rfl⟩, fun hp => ?_, fun hp => ?_, fun hch => (nomatch hch), fun hp => ?_, fun hp => ?_,
      fun _ _ _ => rfl⟩
    · rcases hpc with hret | ⟨-, hin⟩
      · exact .inl hret
      · exact .inr ⟨hin, hsafe.resolve_left (not_le.mpr hin)⟩
    all_goals rcases hpc with hret | ⟨hret, -⟩
    · rw [hret] at hp
      rcases hp with hp | hp <;> cases hp
    · rw [hret] at hp
      rcases hp with hp | hp <;> cases hp
    · rw [hret] at hp
      cases hp
    · rw [hret] at hp
      cases hp
    · rw [hret] at hp
      cases hp
    · rw [hret] at hp
      cases hp
    · rw [hret] at hp
      rcases hp with hp | hp <;> cases hp
    · rw [hret] at hp
      rcases hp with hp | hp <;> cases hp
  have hcall : ∀ d y, Function.update s.call c (some (psciVcpuOn s mpidr entry ctx)) d = some y →
      (d = c ∧ y = psciVcpuOn s mpidr entry ctx) ∨ (d ≠ c ∧ s.call d = some y) := by
    intro d y hy
    by_cases hd : d = c
    · rw [hd, Function.update_self] at hy
      exact .inl ⟨hd, (Option.some.inj hy).symm⟩
    · rw [Function.update_of_ne hd] at hy
      exact .inr ⟨hd, hy⟩
  have hnres : (psciVcpuOn s mpidr entry ctx).pc ≠ .resume := by
    rcases hpc with hp | ⟨hp, -⟩ <;> rw [hp] <;> decide
  refine ⟨h.vcpu, fun d y hy => ?_, fun d y hy => ?_, fun d e y z hy hz hyp hzp hyz => ?_, fun i g hg hsus => ?_⟩
  · rcases hcall d y hy with ⟨rfl, -⟩ | ⟨-, hy'⟩
    · exact hlt
    · exact h.caller d y hy'
  · rcases hcall d y hy with ⟨-, rfl⟩ | ⟨-, hy'⟩
    · exact hnew
    · exact h.call d y hy'
  · rcases hcall d y hy with ⟨-, rfl⟩ | ⟨-, hy'⟩
    · exact absurd hyp hnres
    · rcases hcall e z hz with ⟨-, rfl⟩ | ⟨-, hz'⟩
      · exact absurd hzp hnres
      · exact h.single d e y z hy' hz' hyp hzp hyz
  · obtain ⟨d, y, hy, hyt, hyp⟩ := h.waiting i g hg hsus
    refine ⟨d, y, ?_, hyt, hyp⟩
    have hd : d ≠ c := by
      rintro rfl
      have hl := hidle y hy
      rw [hyp] at hl
      cases hl
    exact (Function.update_of_ne hd _ _).trans hy

/-- a step of CPU_OFF or of a thread -/
theorem PsciInv.vcpuStep (h : PsciInv s) {i : Nat} {op : VcpuOp} {v' : PsciVcpu}
    (hs : Psci.vcpuStep s.info i (s.vcpu i) op = some v') :
    PsciInv { s with vcpu := Function.update s.vcpu i v' } := by
  refine ⟨fun j => ?_, h.caller, fun d y hy => ?_, h.single, fun j g hg hsus => ?_⟩
  · by_cases hj : j = i
    · subst hj
      dsimp only
      rw [Function.update_self]
      exact (h.vcpu j).step hs
    · dsimp only
      rw [Function.update_of_ne hj]
      exact h.vcpu j
  · by_cases ht : y.target = i
    · subst ht
      dsimp only
      rw [Function.update_self]
      exact (h.call d y hy).step (h.vcpu y.target) hs
    · dsimp only
      rw [Function.update_of_ne ht]
      exact h.call d y hy
  · by_cases hj : j = i
    · subst hj
      dsimp only at hg hsus
      rw [Function.update_self] at hg hsus
      obtain ⟨hsus', howed⟩ := suspended_step hs hsus
      exact h.waiting j g (howed g hg) hsus'
    · dsimp only at hg hsus
      rw [Function.update_of_ne hj] at hg hsus
      exact h.waiting j g hg hsus

/-- **Every safe step keeps the invariant.** -/
theorem PsciInv.step {s' : PsciVm} (h : PsciInv s) {op : PsciOp} (hsafe : CpuOnSafe s op)
    (hs : psciStep s op = some s') : PsciInv s' := by
  cases op with
  | call c mpidr entry ctx =>
    obtain ⟨⟨hlt, hidle⟩, hs⟩ := Option.ite_none_right_eq_some.mp hs
    cases hs
    exact h.called hlt hidle hsafe
  | advance c =>
    obtain ⟨x, hx, hs⟩ := Option.bind_eq_some_iff.mp hs
    obtain ⟨hentry, hargs, hstart⟩ := hsafe x hx
    unfold PsciVm.advance at hs
    dsimp only at hs
    cases hpc : x.pc with
    | storeEntry =>
      rw [hpc] at hs
      cases hs
      exact h.storeEntry hx hpc (hentry hpc)
    | storeArgs =>
      rw [hpc] at hs
      cases hs
      exact h.storeArgs hx hpc (hargs hpc)
    | start =>
      rw [hpc] at hs
      dsimp only at hs
      split at hs
      · rename_i hoff
        cases hs
        exact h.granted hx hpc hoff (hstart hpc)
      · rename_i hon
        cases hs
        exact h.refused hx hpc hon
    | resume =>
      rw [hpc] at hs
      cases hs
      exact h.resumed hx hpc
    | returned ret =>
      rw [hpc] at hs
      cases hs
  | vcpu i op =>
    obtain ⟨v', hv, rfl⟩ := Option.map_eq_some_iff.mp hs
    exact h.vcpuStep hv

theorem run_inv (hr : psciSys.Run CpuOnSafe s) : PsciInv s := by
  refine hr.invariant (I := PsciInv) (fun s h0 => psciInit_inv h0) fun s op s' h hsafe hs => ?_
  exact h.step hsafe hs

end

/-! ## one grant -/

/-- no call was granted since the last CPU_OFF; or one, and the vCPU is on -/
def OneGrant (v : PsciVcpu) : Prop := v.grants = 0 ∨ (v.grants = 1 ∧ ¬ v.IsOff)

theorem OneGrant.update {f : Nat → PsciVcpu} (h : ∀ i, OneGrant (f i)) {j : Nat} {v : PsciVcpu} (hv : OneGrant v) :
    ∀ i, OneGrant (Function.update f j v i) := by
  intro i
  by_cases hi : i = j
  · rw [hi, Function.update_self]
    exact hv
  · rw [Function.update_of_ne hi]
    exact h i

theorem OneGrant.started {v : PsciVcpu} (h : OneGrant v) (hoff : v.IsOff) (g : Word × Word) :
    OneGrant (v.started g) := by
  have h0 : v.grants = 0 := h.resolve_right fun h1 => h1.2 hoff
  unfold PsciVcpu.started
  split
  all_goals
    refine .inr ⟨?_, ?_⟩
    · dsimp only
      rw [h0]
    · exact not_isOff_of_ready rfl

theorem OneGrant.vcpuStep {info : Word × Word} {i : Nat} {v v' : PsciVcpu} {op : VcpuOp} (h : OneGrant v)
    (hs : Psci.vcpuStep info i v op = some v') : OneGrant v' := by
  cases op with
  | off =>
    cases (Option.ite_none_right_eq_some.mp hs).2
    exact .inl rfl
  | launch =>
    cases (Option.ite_none_right_eq_some.mp hs).2
    unfold OneGrant PsciVcpu.IsOff
    rw [launch_status]
    cases decide (i = 0) <;> exact h
  | _ =>
    cases (Option.ite_none_right_eq_some.mp hs).2
    exact h

/-- the status is looked at and set under one lock -/
theorem oneGrant_step {s s' : PsciVm} {op : PsciOp} (h : ∀ i, OneGrant (s.vcpu i)) (hs : psciStep s op = some s') :
    ∀ i, OneGrant (s'.vcpu i) := by
  cases op with
  | call c mpidr entry ctx =>
    cases (Option.ite_none_right_eq_some.mp hs).2
    exact h
  | advance c =>
    obtain ⟨x, hx, hs⟩ := Option.bind_eq_some_iff.mp hs
    unfold PsciVm.advance at hs
    dsimp only at hs
    cases hpc : x.pc with
    | start =>
      rw [hpc] at hs
      dsimp only at hs
      split at hs
      · rename_i hoff
        cases hs
        exact OneGrant.update h ((h x.target).started hoff _)
      · cases hs
        exact OneGrant.update h (h x.target)
    | resume =>
      rw [hpc] at hs
      cases hs
      refine OneGrant.update h ?_
      unfold PsciVcpu.threadResume
      split <;> exact h x.target
    | returned ret =>
      rw [hpc] at hs
      cases hs
    | _ =>
      rw [hpc] at hs
      cases hs
      exact OneGrant.update h (h x.target)
  | vcpu i op =>
    obtain ⟨v', hv, rfl⟩ := Option.map_eq_some_iff.mp hs
    exact OneGrant.update h ((h i).vcpuStep hv)

theorem reach_oneGrant {s : PsciVm} (hr : psciSys.Reach s) : ∀ i, OneGrant (s.vcpu i) := by
  refine hr.invariant (I := fun s => ∀ i, OneGrant (s.vcpu i)) (fun s h0 i => .inl (h0.owed i).2.2)
    fun s op s' h _ hs => ?_
  exact oneGrant_step h hs

/-- **CPU_ON.**  In every run, no vCPU is granted two calls without a CPU_OFF of its own in between; and in a run of
safe steps calls are transactional: a failed one leaves its target as it was, one with an MPIDR of no vCPU is refused,
and a granted one had a target that was off and that starts with what was asked for. -/
theorem psci_cpu_on {s : PsciVm} (hr : psciSys.Reach s) :
    (∀ i, (s.vcpu i).grants ≤ 1) ∧ (psciSys.Run CpuOnSafe s → Transactional s) := by
  refine ⟨fun i => ?_, fun h => (run_inv h).transactional⟩
  rcases reach_oneGrant hr i with h | h
  · omega
  · omega

/-- a VM of two vCPUs: the first runs its guest, the second was created -/
def twoVcpus : PsciVm :=
  ⟨2, (0, 0), fun i => ⟨0, 0, if i = 0 then .ready else .created, if i = 0 then .running else .suspended,
    if i = 0 then false else true, .idle, (0, 0), none, none, 0⟩, fun _ => none⟩

theorem twoVcpus_run (G : PsciVm → PsciOp → Prop) : psciSys.Run G twoVcpus := by
  refine .init ⟨fun _ => rfl, fun i hc => ?_, fun _ => rfl, fun _ => ⟨rfl, rfl, rfl⟩⟩
  by_cases hi : i = 0
  · subst hi
    cases hc
  · exact ⟨if_neg hi, if_neg hi⟩

/-- the first starts the second, which is launched; a call for a vCPU that is not there is refused -/
theorem psci_cpu_on_starts : ∃ s, Transactional s ∧ (s.vcpu 1).grants ≤ 1 ∧
    (s.vcpu 1).given = some (0x1000, 7) ∧ (s.vcpu 1).regs = (0x1000, 7) := by
  have hsome : ((Machine.execIf CpuOnSafe psciStep twoVcpus [.call 0 1 0x1000 7, .advance 0, .advance 0, .advance 0,
      .advance 0, .vcpu 1 .run, .vcpu 1 .launch, .call 0 2 0x2000 8]).any fun s =>
        decide ((s.vcpu 1).given = some (0x1000, 7) ∧ (s.vcpu 1).regs = (0x1000, 7))) = true := by decide
  obtain ⟨s, hs, hp⟩ := (Option.any_eq_true _ _).mp hsome
  have hrun := (twoVcpus_run CpuOnSafe).execIf _ hs
  have h := psci_cpu_on hrun.reach
  exact ⟨s, h.2 hrun, h.1 1, of_decide_eq_true hp⟩

/-- a second call for a vCPU that was started is refused, and has changed its entry point -/
theorem psci_cpu_on_changes : ¬ ∀ s : PsciVm, psciSys.Reach s → Transactional s := by
  intro h
  have hsome : ((Machine.exec psciStep twoVcpus [.call 0 1 0x1000 7, .advance 0, .advance 0, .advance 0,
      .advance 0, .call 0 1 0x2000 8, .advance 0, .advance 0, .advance 0]).any fun s =>
        (s.call 0).any fun x => decide (x.pc = .returned SMC_ALREADY_ON ∧ x.changed = true)) = true := by decide
  obtain ⟨s, hs, hx⟩ := (Option.any_eq_true _ _).mp hsome
  obtain ⟨x, hx, hp⟩ := (Option.any_eq_true _ _).mp hx
  obtain ⟨hpc, hch⟩ := of_decide_eq_true hp
  have hkept := (h s ((twoVcpus_run _).exec _ hs)).kept 0 x _ hx hpc (by decide)
  rw [hch] at hkept
  cases hkept

end Psci
end Vcpu
end LkHv
