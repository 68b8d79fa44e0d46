import Mathlib.Algebra.Order.Group.Nat
import LkHv.Lib.Machine

/-!
# The FP state of the threads (`arch/arm64/fpu.c`, `arch/arm64/thread.c`)

Threads, host threads and the threads of vCPUs alike, move over the CPUs.  CPACR_EL1 and the FP registers
belong to the CPU; a guest writes CPACR_EL1 without a trap.

* `loadState`, `saveState`, `fpuException`, `preContextSwitch`, `postContextSwitch`, `archContextSwitch`
  the source's;
* `FpuRun`          the CPUs and threads, with what each thread last saw;
* `fpuSys`          switches, thread creation, guest writes and traps in any order;
* `FpuOk`           the running threads have their own FPEN, and their own values if they can reach them;
* `FpuInv`          the invariant, with a CPU between two threads allowed;
* `fpu_isolated`    runs under the guard are `FpuOk`;
* `fpu_isolated_fails`   not so if FP is disabled when a thread is switched out.
-/

namespace LkHv
namespace Thread

/-- q0 to q31 with FPCR and FPSR -/
structure FpRegs where
  regs : Nat → Nat
  fpcr : Nat
  fpsr : Nat

/-- the values of a new thread -/
def FpRegs.zero : FpRegs := ⟨fun _ => 0, 0, 0⟩

/-- `struct fpstate` -/
structure Fpstate where
  values : FpRegs
  currentCpu : Nat
  cpacr : Nat

/-- after the `memset` of `init_thread_struct` -/
def Fpstate.init : Fpstate := ⟨.zero, 0, 0⟩

/-- `(cpacr >> 20) & 3` -/
def fpen (cpacr : Nat) : Nat := (cpacr >>> 20) &&& 3

/-- FP is enabled, as `arm64_fpu_pre_context_switch` tests it -/
def FpOn (cpacr : Nat) : Prop := fpen cpacr ≠ 0

instance (cpacr : Nat) : Decidable (FpOn cpacr) := inferInstanceAs (Decidable (_ ≠ _))

/-- the CPUs and the threads; a thread is the address of its `thread_t` -/
structure Fpu where
  /-- `get_current_thread` of a CPU -/
  curr : Nat → Nat
  cpacrEl1 : Nat → Nat
  fpRegs : Nat → FpRegs
  currentFpstate : Nat → Option Nat
  fpstate : Nat → Fpstate
  /-- the thread is past `initial_thread_func`; one that is not starts there when it is switched in -/
  started : Nat → Bool

namespace Fpu

/-- the fpstate of the thread is already valid on the CPU -/
def Valid (s : Fpu) (cpu t : Nat) : Prop := s.currentFpstate cpu = some t ∧ (s.fpstate t).currentCpu = cpu

instance (s : Fpu) (cpu t : Nat) : Decidable (s.Valid cpu t) := inferInstanceAs (Decidable (_ ∧ _))

def setFpstate (s : Fpu) (t : Nat) (f : Fpstate) : Fpu := { s with fpstate := Function.update s.fpstate t f }

@[simp] theorem setFpstate_self (s : Fpu) (t : Nat) (f : Fpstate) : (s.setFpstate t f).fpstate t = f :=
  Function.update_self _ _ _

theorem setFpstate_of_ne (s : Fpu) {t u : Nat} (f : Fpstate) (h : u ≠ t) :
    (s.setFpstate t f).fpstate u = s.fpstate u :=
  Function.update_of_ne h _ _

def writeCpacr (s : Fpu) (cpu cpacr : Nat) : Fpu := { s with cpacrEl1 := Function.update s.cpacrEl1 cpu cpacr }

def loadState (s : Fpu) (cpu t : Nat) : Fpu :=
  if s.Valid cpu t then s
  else
    { s.setFpstate t { s.fpstate t with currentCpu := cpu } with
      currentFpstate := Function.update s.currentFpstate cpu (some t)
      fpRegs := Function.update s.fpRegs cpu (s.fpstate t).values }

def saveState (s : Fpu) (cpu t : Nat) : Fpu := s.setFpstate t { s.fpstate t with values := s.fpRegs cpu }

def setCapcr (s : Fpu) (t cpacr : Nat) : Fpu := s.setFpstate t { s.fpstate t with cpacr := cpacr }

/-- `arm64_fpu_exception`; a `uint32_t` holds what is read of CPACR_EL1 -/
def fpuException (s : Fpu) (cpu : Nat) : Fpu :=
  let cpacr := s.cpacrEl1 cpu % 2 ^ 32
  if fpen cpacr ≠ 3 then (s.writeCpacr cpu (cpacr ||| 3 <<< 20)).loadState cpu (s.curr cpu) else s

def preContextSwitch (s : Fpu) (cpu t : Nat) : Fpu :=
  let cpacr := s.cpacrEl1 cpu % 2 ^ 32
  if FpOn cpacr then (s.saveState cpu t).setCapcr t cpacr else s

def postContextSwitch (s : Fpu) (cpu t : Nat) : Fpu :=
  let cpacr := (s.fpstate t).cpacr
  let s := s.writeCpacr cpu cpacr
  if FpOn cpacr then s.loadState cpu t else s

/-- what runs after the stacks were switched: a new thread comes out in `initial_thread_func`, the others in
`arch_context_switch` -/
def afterSwitch (s : Fpu) (cpu t : Nat) : Fpu :=
  if s.started t then s.postContextSwitch cpu t
  else { s with started := Function.update s.started t true }

def archContextSwitch (s : Fpu) (cpu newthread : Nat) : Fpu :=
  let s := s.preContextSwitch cpu (s.curr cpu)
  ({ s with curr := Function.update s.curr cpu newthread }).afterSwitch cpu newthread

/-- `init_thread_struct`, for a thread that was never there or one that is gone -/
def initThread (s : Fpu) (t : Nat) : Fpu := { s.setFpstate t .init with started := Function.update s.started t false }

end Fpu

/-- the CPUs and threads, and beside them what each thread last saw -/
structure FpuRun where
  sys : Fpu
  /-- the FPEN value the thread had when it last executed -/
  lastFpen : Nat → Nat
  /-- the values it itself last had in the FP registers, at first its initial ones -/
  held : Nat → FpRegs

inductive FpuOp
  | switchTo (cpu newthread : Nat)
  | create (t : Nat)
  /-- the running thread writes CPACR_EL1: a guest, which is not trapped, or `hv_vcpu_arch_init` -/
  | writeCpacr (cpu cpacr : Nat)
  | writeRegs (cpu : Nat) (f : FpRegs)
  /-- an FP trap -/
  | trap (cpu : Nat)

/-- no CPU runs the thread -/
def FpuRun.Idle (cpus : Nat) (s : FpuRun) (t : Nat) : Prop := ∀ c < cpus, s.sys.curr c ≠ t

/-- a thread runs on one CPU at a time; it writes FP registers only if it can reach them -/
def FpuEnabled (cpus : Nat) (s : FpuRun) : FpuOp → Prop
  | .switchTo c t => c < cpus ∧ s.Idle cpus t
  | .create t => s.Idle cpus t
  | .writeCpacr c _ | .trap c => c < cpus
  | .writeRegs c _ => c < cpus ∧ FpOn (s.sys.cpacrEl1 c)

def fpuStep (s : FpuRun) : FpuOp → FpuRun
  | .switchTo c t =>
    { s with
      sys := s.sys.archContextSwitch c t
      lastFpen := if s.sys.started t then s.lastFpen
        else Function.update s.lastFpen t (fpen (s.sys.cpacrEl1 c)) }
  | .create t =>
    { s with sys := s.sys.initThread t, held := Function.update s.held t .zero }
  | .writeCpacr c cpacr =>
    { s with
      sys := s.sys.writeCpacr c cpacr
      lastFpen := Function.update s.lastFpen (s.sys.curr c) (fpen cpacr) }
  | .writeRegs c f =>
    { s with
      sys := { s.sys with fpRegs := Function.update s.sys.fpRegs c f }
      held := Function.update s.held (s.sys.curr c) f }
  | .trap c =>
    { s with
      sys := s.sys.fpuException c
      lastFpen := Function.update s.lastFpen (s.sys.curr c) 3 }

/-- the boot threads run with what is in the registers, the others are new -/
structure FpuBoot (cpus : Nat) (s : FpuRun) : Prop where
  inj : ∀ c < cpus, ∀ d < cpus, s.sys.curr c = s.sys.curr d → c = d
  owner : ∀ c, s.sys.currentFpstate c = none
  fpstate : ∀ t, s.sys.fpstate t = .init
  started : ∀ c < cpus, s.sys.started (s.sys.curr c) = true
  fresh : ∀ t, s.Idle cpus t → s.sys.started t = false ∧ s.held t = .zero
  lastFpen : ∀ c < cpus, s.lastFpen (s.sys.curr c) = fpen (s.sys.cpacrEl1 c)
  held : ∀ c < cpus, s.held (s.sys.curr c) = if FpOn (s.sys.cpacrEl1 c) then s.sys.fpRegs c else .zero

/-- each CPU's thread has the FPEN value it last executed with, and its own values if it can reach them -/
def FpuOk (cpus : Nat) (s : FpuRun) : Prop :=
  ∀ c < cpus, fpen (s.sys.cpacrEl1 c) = s.lastFpen (s.sys.curr c) ∧
    (FpOn (s.sys.cpacrEl1 c) → s.sys.fpRegs c = s.held (s.sys.curr c))

/-- the guard:
* a thread is switched out with FP enabled, or it had FP disabled when it was last saved and lost nothing since;
* a new thread is switched in where FP is disabled;
* a new thread is not at the address of the one whose FP registers CPU 0 holds;
* FP is enabled or disabled without a trap only where the registers are the thread's already;
* a trap comes where FP is disabled, or they are. -/
def FpuGuard (s : FpuRun) : FpuOp → Prop
  | .switchTo c t =>
    (FpOn (s.sys.cpacrEl1 c) ∨ ¬ FpOn (s.sys.fpstate (s.sys.curr c)).cpacr ∧
      (s.sys.Valid c (s.sys.curr c) → s.sys.fpRegs c = (s.sys.fpstate (s.sys.curr c)).values)) ∧
    (s.sys.started t = true ∨ ¬ FpOn (s.sys.cpacrEl1 c))
  | .create t => s.sys.currentFpstate 0 ≠ some t
  | .writeCpacr c cpacr => (FpOn cpacr ↔ FpOn (s.sys.cpacrEl1 c)) ∨ s.sys.Valid c (s.sys.curr c)
  | .trap c => fpen (s.sys.cpacrEl1 c) = 3 ∨ ¬ FpOn (s.sys.cpacrEl1 c) ∨ s.sys.Valid c (s.sys.curr c)
  | .writeRegs _ _ => True

/-! ## FPEN -/

theorem fpen_eq (x : Nat) : fpen x = x / 2 ^ 20 % 4 := by
  unfold fpen
  rw [Nat.shiftRight_eq_div_pow]
  exact Nat.and_two_pow_sub_one_eq_mod _ 2

/-- FPEN is among the bits that a `uint32_t` holds -/
theorem fpen_mod (x : Nat) : fpen (x % 2 ^ 32) = fpen x := by
  rw [fpen_eq, fpen_eq]
  omega

theorem fpen_or (x : Nat) : fpen (x ||| 3 <<< 20) = 3 := by
  unfold fpen
  rw [Nat.shiftRight_or_distrib]
  apply Nat.eq_of_testBit_eq
  intro i
  have h3 : (3 <<< 20) >>> 20 = 3 := by decide
  rw [h3, Nat.testBit_and, Nat.testBit_or]
  cases Nat.testBit 3 i
  · exact Bool.and_false _
  · rw [Bool.or_true, Bool.true_and]

theorem fpOn_mod (x : Nat) : FpOn (x % 2 ^ 32) ↔ FpOn x := by
  unfold FpOn
  rw [fpen_mod]

/-! ## the invariant -/

/-- what holds of the thread on a CPU -/
structure Running (s : FpuRun) (c t : Nat) : Prop where
  fpen : fpen (s.sys.cpacrEl1 c) = s.lastFpen t
  regs : FpOn (s.sys.cpacrEl1 c) ∨ s.sys.Valid c t → s.sys.fpRegs c = s.held t
  saved : ¬ FpOn (s.sys.cpacrEl1 c) → ¬ s.sys.Valid c t → (s.sys.fpstate t).values = s.held t
  only : FpOn (s.sys.cpacrEl1 c) → ∀ u, s.sys.Valid c u → u = t
  owner : FpOn (s.sys.cpacrEl1 c) → s.sys.Valid c t ∨ ∀ d, s.sys.currentFpstate d ≠ some t
  started : s.sys.started t = true

/-- what holds of the others -/
structure Resting (s : FpuRun) (t : Nat) : Prop where
  saved : (s.sys.fpstate t).values = s.held t
  fpen : s.sys.started t = true → fpen (s.sys.fpstate t).cpacr = s.lastFpen t

/-- `cur` says what runs on a CPU; between two threads there is none -/
structure FpuInv (cpus : Nat) (s : FpuRun) (cur : Nat → Option Nat) : Prop where
  inj : ∀ c < cpus, ∀ d < cpus, ∀ t, cur c = some t → cur d = some t → c = d
  run : ∀ c < cpus, ∀ t, cur c = some t → Running s c t
  rest : ∀ t, (∀ c < cpus, cur c ≠ some t) → Resting s t
  valid : ∀ c < cpus, ∀ u, s.sys.Valid c u → cur c ≠ some u → s.sys.fpRegs c = (s.sys.fpstate u).values

section
variable {cpus : Nat} {s s' : FpuRun} {cur : Nat → Option Nat} {c t : Nat}

/-- the invariant of a state in which each CPU runs its current thread -/
abbrev FpuInv.All (cpus : Nat) (s : FpuRun) : Prop := FpuInv cpus s fun c => some (s.sys.curr c)

theorem FpuInv.ok (h : FpuInv.All cpus s) : FpuOk cpus s := fun c hc =>
  ⟨(h.run c hc _ rfl).fpen, fun ho => (h.run c hc _ rfl).regs (.inl ho)⟩

theorem FpuInv.boot (h : FpuBoot cpus s) : FpuInv.All cpus s where
  inj c hc d hd t h1 h2 := h.inj c hc d hd (Option.some.inj (h1.trans h2.symm))
  run c hc t ht := by
    cases ht
    have hno : ¬ s.sys.Valid c (s.sys.curr c) := fun hv => by
      rw [Fpu.Valid, h.owner] at hv
      cases hv.1
    refine ⟨(h.lastFpen c hc).symm, fun ho => ?_, fun ho _ => ?_, fun _ u hu => ?_, fun _ => .inr fun d => ?_,
      h.started c hc⟩
    · rw [h.held c hc, if_pos (ho.resolve_right hno)]
    · rw [h.held c hc, if_neg ho, h.fpstate]
      rfl
    · rw [Fpu.Valid, h.owner] at hu
      cases hu.1
    · rw [h.owner]
      exact fun e => by cases e
  rest t ht := by
    have hi : s.Idle cpus t := fun c hc e => ht c hc (congrArg some e)
    obtain ⟨h1, h2⟩ := h.fresh t hi
    refine ⟨?_, fun e => ?_⟩
    · rw [h2, h.fpstate]
      rfl
    · rw [h1] at e
      cases e
  valid c hc u hu := by
    rw [Fpu.Valid, h.owner] at hu
    cases hu.1

/-- what a CPU that is not `c` sees of a step on `c` -/
structure Elsewhere (s s' : FpuRun) (c t : Nat) : Prop where
  cpacr : ∀ d ≠ c, s'.sys.cpacrEl1 d = s.sys.cpacrEl1 d
  regs : ∀ d ≠ c, s'.sys.fpRegs d = s.sys.fpRegs d
  owner : ∀ d ≠ c, s'.sys.currentFpstate d = s.sys.currentFpstate d
  fpstate : ∀ u ≠ t, s'.sys.fpstate u = s.sys.fpstate u
  started : ∀ u ≠ t, s'.sys.started u = s.sys.started u
  lastFpen : ∀ u ≠ t, s'.lastFpen u = s.lastFpen u
  held : ∀ u ≠ t, s'.held u = s.held u
  /-- the thread on `c` takes nothing but what was there before -/
  own : s'.sys.currentFpstate c = s.sys.currentFpstate c ∨ s'.sys.currentFpstate c = some t

theorem Elsewhere.resting (he : Elsewhere s s' c t) {u : Nat} (hu : u ≠ t) (h : Resting s u) : Resting s' u := by
  refine ⟨?_, fun hs => ?_⟩
  · rw [he.fpstate u hu, he.held u hu]
    exact h.saved
  · rw [he.fpstate u hu, he.lastFpen u hu]
    exact h.fpen (by rwa [he.started u hu] at hs)

theorem Elsewhere.valid_iff (he : Elsewhere s s' c t) {d u : Nat} (hd : d ≠ c) (hu : u ≠ t) :
    s'.sys.Valid d u ↔ s.sys.Valid d u := by
  unfold Fpu.Valid
  rw [he.owner d hd, he.fpstate u hu]

theorem Elsewhere.running (he : Elsewhere s s' c t) {d u : Nat} (hd : d ≠ c) (hu : u ≠ t)
    (ht : s'.sys.Valid d t → s.sys.Valid d t) (h : Running s d u) : Running s' d u := by
  have hv := he.valid_iff hd hu
  refine ⟨?_, fun ho => ?_, fun ho hn => ?_, fun ho w hw => ?_, fun ho => ?_, ?_⟩
  · rw [he.cpacr d hd, he.lastFpen u hu]
    exact h.fpen
  · rw [he.regs d hd, he.held u hu]
    rw [he.cpacr d hd, hv] at ho
    exact h.regs ho
  · rw [he.fpstate u hu, he.held u hu]
    rw [he.cpacr d hd] at ho
    exact h.saved ho fun hn' => hn (hv.mpr hn')
  · rw [he.cpacr d hd] at ho
    by_cases hwt : w = t
    · rw [hwt] at hw ⊢
      exact h.only ho t (ht hw)
    · exact h.only ho w ((he.valid_iff hd hwt).mp hw)
  · rw [he.cpacr d hd] at ho
    refine (h.owner ho).imp hv.mpr fun hno d' => ?_
    by_cases hd' : d' = c
    · rw [hd']
      rcases he.own with e | e
      · rw [e]
        exact hno c
      · rw [e]
        exact fun e' => hu (Option.some.inj e').symm
    · rw [he.owner d' hd']
      exact hno d'
  · rw [he.started u hu]
    exact h.started

/-- a step of the thread that runs on `c` before it, after it, or both -/
theorem FpuInv.local {cur' : Nat → Option Nat} (h : FpuInv cpus s cur) (he : Elsewhere s s' c t)
    (hcur : ∀ d ≠ c, cur' d = cur d) (hold : c < cpus → cur c = none ∨ cur c = some t)
    (hother : ∀ d < cpus, d ≠ c → cur d ≠ some t)
    (hval : ∀ d ≠ c, s'.sys.Valid d t →
      s.sys.Valid d t ∧ (d < cpus → (s'.sys.fpstate t).values = (s.sys.fpstate t).values))
    (hrun : c < cpus → ∀ u, cur' c = some u → u = t ∧ Running s' c t)
    (hrest : (∀ d < cpus, cur' d ≠ some t) → Resting s' t)
    (hvalid : c < cpus → ∀ u, s'.sys.Valid c u → cur' c ≠ some u → s'.sys.fpRegs c = (s'.sys.fpstate u).values) :
    FpuInv cpus s' cur' where
  inj d hd e he' u h1 h2 := by
    by_cases hdc : d = c
    · rw [hdc] at h1 hd ⊢
      by_contra hne
      rw [hcur e fun x => hne x.symm, (hrun hd u h1).1] at h2
      exact hother e he' (fun x => hne x.symm) h2
    · by_cases hec : e = c
      · rw [hec] at h2 he'
        rw [hcur d hdc, (hrun he' u h2).1] at h1
        exact absurd h1 (hother d hd hdc)
      · rw [hcur d hdc] at h1
        rw [hcur e hec] at h2
        exact h.inj d hd e he' u h1 h2
  run d hd u hu := by
    by_cases hdc : d = c
    · rw [hdc] at hu hd ⊢
      obtain ⟨rfl, hr⟩ := hrun hd u hu
      exact hr
    · rw [hcur d hdc] at hu
      have hut : u ≠ t := fun e => hother d hd hdc (e ▸ hu)
      exact he.running hdc hut (fun hv => (hval d hdc hv).1) (h.run d hd u hu)
  rest u hu := by
    by_cases hut : u = t
    · rw [hut] at hu ⊢
      exact hrest hu
    · refine he.resting hut (h.rest u fun d hd e => ?_)
      by_cases hdc : d = c
      · rw [hdc] at e hd
        rcases hold hd with h1 | h1
        · rw [h1] at e
          cases e
        · exact hut (Option.some.inj (e.symm.trans h1))
      · exact hu d hd ((hcur d hdc).trans e)
  valid d hd u hv hu := by
    by_cases hdc : d = c
    · rw [hdc] at hd hv hu ⊢
      exact hvalid hd u hv hu
    · rw [hcur d hdc] at hu
      rw [he.regs d hdc]
      by_cases hut : u = t
      · rw [hut] at hv hu ⊢
        obtain ⟨h1, h2⟩ := hval d hdc hv
        rw [h2 hd]
        exact h.valid d hd t h1 hu
      · rw [he.fpstate u hut]
        exact h.valid d hd u ((he.valid_iff hdc hut).mp hv) hu

theorem loadState_valid {f : Fpu} (h : f.Valid c t) : f.loadState c t = f := if_pos h

theorem loadState_not {f : Fpu} (h : ¬ f.Valid c t) : f.loadState c t =
    { f.setFpstate t { f.fpstate t with currentCpu := c } with
      currentFpstate := Function.update f.currentFpstate c (some t)
      fpRegs := Function.update f.fpRegs c (f.fpstate t).values } := if_neg h

/-! ## the switch -/

theorem preContextSwitch_on {f : Fpu} (h : FpOn (f.cpacrEl1 c)) : f.preContextSwitch c t =
    f.setFpstate t ⟨f.fpRegs c, (f.fpstate t).currentCpu, f.cpacrEl1 c % 2 ^ 32⟩ := by
  unfold Fpu.preContextSwitch
  dsimp only
  rw [if_pos ((fpOn_mod _).mpr h)]
  unfold Fpu.saveState Fpu.setCapcr Fpu.setFpstate
  dsimp only
  rw [Function.update_self, Function.update_idem]

theorem preContextSwitch_off {f : Fpu} (h : ¬ FpOn (f.cpacrEl1 c)) : f.preContextSwitch c t = f := by
  unfold Fpu.preContextSwitch
  exact if_neg fun h' => h ((fpOn_mod _).mp h')

/-- only the thread's `fpstate` changes -/
theorem Elsewhere.setFpstate (s : FpuRun) (c t : Nat) (f : Fpstate) :
    Elsewhere s { s with sys := s.sys.setFpstate t f } c t :=
  ⟨fun _ _ => rfl, fun _ _ => rfl, fun _ _ => rfl, fun _ hu => Function.update_of_ne hu _ _, fun _ _ => rfl,
    fun _ _ => rfl, fun _ _ => rfl, .inl rfl⟩

/-- **Switching out.** -/
theorem FpuInv.switchOut (h : FpuInv cpus s cur) (hc : c < cpus) (ht : cur c = some t)
    (hg : FpOn (s.sys.cpacrEl1 c) ∨ ¬ FpOn (s.sys.fpstate t).cpacr ∧
      (s.sys.Valid c t → s.sys.fpRegs c = (s.sys.fpstate t).values)) :
    FpuInv cpus { s with sys := s.sys.preContextSwitch c t } (Function.update cur c none) := by
  have hr := h.run c hc t ht
  have hcur : ∀ d ≠ c, Function.update cur c none d = cur d := fun d hd => Function.update_of_ne hd _ _
  have hother : ∀ d < cpus, d ≠ c → cur d ≠ some t := fun d hd hdc e => hdc (h.inj d hd c hc t e ht)
  have hnone : ∀ u, Function.update cur c none c ≠ some u := fun u e => by
    rw [Function.update_self] at e
    cases e
  by_cases ho : FpOn (s.sys.cpacrEl1 c)
  · rw [preContextSwitch_on ho]
    refine h.local (.setFpstate s c t _) hcur (fun _ => .inr ht) hother (fun d hd hv => ?_)
      (fun _ u hu => absurd hu (hnone u)) (fun _ => ⟨?_, fun _ => ?_⟩) fun _ u hv _ => ?_
    · -- its registers are nowhere else
      obtain ⟨h1, h2⟩ := hv
      rw [Fpu.setFpstate_self] at h2
      rcases hr.owner ho with h3 | h3
      · exact absurd (h2.symm.trans h3.2) hd
      · exact absurd h1 (h3 d)
    · rw [Fpu.setFpstate_self]
      exact hr.regs (.inl ho)
    · rw [Fpu.setFpstate_self]
      exact (fpen_mod _).trans hr.fpen
    · by_cases hut : u = t
      · rw [hut, Fpu.setFpstate_self]
        rfl
      · obtain ⟨h1, h2⟩ := hv
        rw [Fpu.setFpstate_of_ne _ _ hut] at h2
        exact absurd (hr.only ho u ⟨h1, h2⟩) hut
  · rw [preContextSwitch_off ho]
    obtain ⟨h1, h2⟩ := hg.resolve_left ho
    have hself : Elsewhere s s c t :=
      ⟨fun _ _ => rfl, fun _ _ => rfl, fun _ _ => rfl, fun _ _ => rfl, fun _ _ => rfl, fun _ _ => rfl,
        fun _ _ => rfl, .inl rfl⟩
    refine h.local hself hcur (fun _ => .inr ht) hother (fun d _ hv => ⟨hv, fun _ => rfl⟩)
      (fun _ u hu => absurd hu (hnone u)) (fun _ => ⟨?_, fun _ => ?_⟩) fun _ u hv _ => ?_
    · by_cases hv : s.sys.Valid c t
      · rw [← h2 hv]
        exact hr.regs (.inr hv)
      · exact hr.saved ho hv
    · rw [← hr.fpen, not_not.mp ho]
      exact not_not.mp h1
    · by_cases hut : u = t
      · rw [hut] at hv ⊢
        exact h2 hv
      · exact h.valid c hc u hv fun e => hut (Option.some.inj (e.symm.trans ht))

/-- switching in without a load: FP is disabled, or the registers are the thread's already -/
theorem FpuInv.enter (h : FpuInv cpus s cur) (hc : c < cpus) (hno : cur c = none)
    (hidle : ∀ d < cpus, cur d ≠ some t) (he : Elsewhere s s' c t) (hregs : s'.sys.fpRegs c = s.sys.fpRegs c)
    (howner : s'.sys.currentFpstate c = s.sys.currentFpstate c) (hfp : s'.sys.fpstate t = s.sys.fpstate t)
    (hheld : s'.held t = s.held t) (hst : s'.sys.started t = true)
    (hfpen : LkHv.Thread.fpen (s'.sys.cpacrEl1 c) = s'.lastFpen t)
    (hon : FpOn (s'.sys.cpacrEl1 c) → s.sys.Valid c t) : FpuInv cpus s' (Function.update cur c (some t)) := by
  have hcur : ∀ d ≠ c, Function.update cur c (some t) d = cur d := fun d hd => Function.update_of_ne hd _ _
  have hsaved := (h.rest t hidle).saved
  have hv : ∀ d u, s'.sys.Valid d u ↔ s.sys.Valid d u := fun d u => by
    have h1 : s'.sys.currentFpstate d = s.sys.currentFpstate d := by
      by_cases hd : d = c
      · rw [hd, howner]
      · exact he.owner d hd
    have h2 : s'.sys.fpstate u = s.sys.fpstate u := by
      by_cases hu : u = t
      · rw [hu, hfp]
      · exact he.fpstate u hu
    unfold Fpu.Valid
    rw [h1, h2]
  have hnone : ∀ u, cur c ≠ some u := fun u e => by
    rw [hno] at e
    cases e
  have hown : s.sys.Valid c t → s.sys.fpRegs c = s.held t := fun hv' => (h.valid c hc t hv' (hnone t)).trans hsaved
  refine h.local he hcur (fun _ => .inl hno) (fun d hd _ => hidle d hd)
    (fun d _ hd => ⟨(hv d t).mp hd, fun _ => by rw [hfp]⟩) (fun _ u hu => ?_) (fun hno' => ?_) fun _ u hu hne => ?_
  · rw [Function.update_self] at hu
    refine ⟨(Option.some.inj hu).symm, hfpen, fun ho => ?_, fun _ _ => ?_, fun ho w hw => ?_,
      fun ho => .inl ((hv c t).mpr (hon ho)), hst⟩
    · rw [hregs, hheld]
      exact hown (ho.elim hon (hv c t).mp)
    · rw [hfp, hheld]
      exact hsaved
    · have h1 := ((hv c w).mp hw).1
      rw [(hon ho).1] at h1
      exact (Option.some.inj h1).symm
  · refine absurd ?_ (hno' c hc)
    rw [Function.update_self]
  · rw [Function.update_self] at hne
    rw [hregs, he.fpstate u fun e => hne (congrArg some e.symm)]
    exact h.valid c hc u ((hv c u).mp hu) (hnone u)

/-- switching in with a load -/
theorem FpuInv.enterLoad (h : FpuInv cpus s cur) (hc : c < cpus) (hno : cur c = none)
    (hidle : ∀ d < cpus, cur d ≠ some t) (he : Elsewhere s s' c t)
    (hregs : s'.sys.fpRegs c = (s.sys.fpstate t).values) (howner : s'.sys.currentFpstate c = some t)
    (hfp : (s'.sys.fpstate t).values = (s.sys.fpstate t).values) (hcpu : (s'.sys.fpstate t).currentCpu = c)
    (hheld : s'.held t = s.held t) (hst : s'.sys.started t = true)
    (hfpen : LkHv.Thread.fpen (s'.sys.cpacrEl1 c) = s'.lastFpen t) :
    FpuInv cpus s' (Function.update cur c (some t)) := by
  have hcur : ∀ d ≠ c, Function.update cur c (some t) d = cur d := fun d hd => Function.update_of_ne hd _ _
  have hsaved := (h.rest t hidle).saved
  refine h.local he hcur (fun _ => .inl hno) (fun d hd _ => hidle d hd)
    (fun d hd hv => absurd (hv.2.symm.trans hcpu) hd) (fun _ u hu => ?_) (fun hno' => ?_) fun _ u hu hne => ?_
  · rw [Function.update_self] at hu
    refine ⟨(Option.some.inj hu).symm, hfpen, fun _ => ?_, fun _ _ => ?_, fun _ w hw => ?_,
      fun _ => .inl ⟨howner, hcpu⟩, hst⟩
    · rw [hregs, hheld]
      exact hsaved
    · rw [hfp, hheld]
      exact hsaved
    · have h1 := hw.1
      rw [howner] at h1
      exact (Option.some.inj h1).symm
  · refine absurd ?_ (hno' c hc)
    rw [Function.update_self]
  · rw [Function.update_self] at hne
    have h1 := hu.1
    rw [howner] at h1
    exact absurd h1 hne

/-- **Switching in.** -/
theorem FpuInv.switchIn (h : FpuInv cpus s cur) (hc : c < cpus) (hno : cur c = none)
    (hidle : ∀ d < cpus, cur d ≠ some t) (hg : s.sys.started t = true ∨ ¬ FpOn (s.sys.cpacrEl1 c)) :
    FpuInv cpus
      { s with
        sys := ({ s.sys with curr := Function.update s.sys.curr c t } : Fpu).afterSwitch c t
        lastFpen := if s.sys.started t then s.lastFpen
          else Function.update s.lastFpen t (fpen (s.sys.cpacrEl1 c)) }
      (Function.update cur c (some t)) := by
  have hrest := h.rest t hidle
  unfold Fpu.afterSwitch
  dsimp only
  by_cases hst : s.sys.started t = true
  · rw [if_pos hst, if_pos hst]
    have hfpen := hrest.fpen hst
    unfold Fpu.postContextSwitch
    dsimp only
    by_cases ho : FpOn (s.sys.fpstate t).cpacr
    · rw [if_pos ho]
      by_cases hv : s.sys.Valid c t
      · rw [loadState_valid (by exact hv)]
        refine h.enter hc hno hidle ⟨fun d hd => Function.update_of_ne hd _ _, fun _ _ => rfl, fun _ _ => rfl,
          fun _ _ => rfl, fun _ _ => rfl, fun _ _ => rfl, fun _ _ => rfl, .inl rfl⟩ rfl rfl rfl rfl hst ?_
          fun _ => hv
        refine Eq.trans (congrArg _ ?_) hfpen
        exact Function.update_self _ _ _
      · rw [loadState_not (by exact hv)]
        have hf : Function.update s.sys.fpstate t
            (⟨(s.sys.fpstate t).values, c, (s.sys.fpstate t).cpacr⟩ : Fpstate) t =
            ⟨(s.sys.fpstate t).values, c, (s.sys.fpstate t).cpacr⟩ := Function.update_self _ _ _
        refine h.enterLoad hc hno hidle ⟨fun d hd => Function.update_of_ne hd _ _,
          fun d hd => Function.update_of_ne hd _ _, fun d hd => Function.update_of_ne hd _ _,
          fun d hd => Function.update_of_ne hd _ _, fun _ _ => rfl, fun _ _ => rfl, fun _ _ => rfl,
          .inr (Function.update_self _ _ _)⟩ (Function.update_self _ _ _) (Function.update_self _ _ _) ?_ ?_ rfl
          hst ?_
        · have e := congrArg Fpstate.values hf
          exact e
        · have e := congrArg Fpstate.currentCpu hf
          exact e
        · refine Eq.trans (congrArg _ ?_) hfpen
          exact Function.update_self _ _ _
    · rw [if_neg ho]
      have hcp : Function.update s.sys.cpacrEl1 c (s.sys.fpstate t).cpacr c = (s.sys.fpstate t).cpacr :=
        Function.update_self _ _ _
      refine h.enter hc hno hidle ⟨fun d hd => Function.update_of_ne hd _ _, fun _ _ => rfl, fun _ _ => rfl,
        fun _ _ => rfl, fun _ _ => rfl, fun _ _ => rfl, fun _ _ => rfl, .inl rfl⟩ rfl rfl rfl rfl hst ?_
        fun ho' => ?_
      · refine Eq.trans (congrArg _ ?_) hfpen
        exact hcp
      · change FpOn (Function.update s.sys.cpacrEl1 c (s.sys.fpstate t).cpacr c) at ho'
        rw [hcp] at ho'
        exact absurd ho' ho
  · -- a new thread, where FP is disabled
    have hl : Function.update s.lastFpen t (fpen (s.sys.cpacrEl1 c)) t = fpen (s.sys.cpacrEl1 c) :=
      Function.update_self _ _ _
    rw [if_neg hst, if_neg hst]
    exact h.enter hc hno hidle ⟨fun _ _ => rfl, fun _ _ => rfl, fun _ _ => rfl, fun _ _ => rfl,
      fun u hu => Function.update_of_ne hu _ _, fun u hu => Function.update_of_ne hu _ _, fun _ _ => rfl, .inl rfl⟩
      rfl rfl rfl rfl (Function.update_self _ _ _) hl.symm
      fun ho => absurd ho (hg.resolve_left hst)

/-! ## the running thread -/

/-- the thread that runs on `c` changes nothing but the CPU's registers -/
theorem FpuInv.here (h : FpuInv.All cpus s) (hc : c < cpus) (ht : s.sys.curr c = t)
    (hcurr : s'.sys.curr = s.sys.curr) (he : Elsewhere s s' c t) (hval : ∀ d ≠ c, s'.sys.Valid d t → s.sys.Valid d t)
    (hfp : (s'.sys.fpstate t).values = (s.sys.fpstate t).values) (hr : Running s' c t)
    (hv : ∀ u ≠ t, s'.sys.Valid c u → s'.sys.fpRegs c = (s'.sys.fpstate u).values) : FpuInv.All cpus s' := by
  subst ht
  refine h.local he (fun d _ => by rw [hcurr]) (fun _ => .inr rfl)
    (fun d hd hdc e => hdc (h.inj d hd c hc _ e rfl)) (fun d hd hv => ⟨hval d hd hv, fun _ => hfp⟩)
    (fun _ u hu => ?_) (fun hno => ?_) fun _ u hu hne => ?_
  · rw [hcurr] at hu
    exact ⟨(Option.some.inj hu).symm, hr⟩
  · refine absurd ?_ (hno c hc)
    rw [hcurr]
  · rw [hcurr] at hne
    exact hv u (fun e => hne (congrArg some e.symm)) hu

/-- the owner of the registers of a CPU is one -/
theorem Fpu.Valid.unique {f : Fpu} {u : Nat} (h : f.Valid c t) (hu : f.Valid c u) : u = t :=
  Option.some.inj (hu.1.symm.trans h.1)

theorem FpuInv.writeCpacr (h : FpuInv.All cpus s) (hc : c < cpus) (cpacr : Nat)
    (hg : (FpOn cpacr ↔ FpOn (s.sys.cpacrEl1 c)) ∨ s.sys.Valid c (s.sys.curr c)) :
    FpuInv.All cpus
      { s with
        sys := s.sys.writeCpacr c cpacr
        lastFpen := Function.update s.lastFpen (s.sys.curr c) (fpen cpacr) } := by
  have hr := h.run c hc _ rfl
  have hcp : Function.update s.sys.cpacrEl1 c cpacr c = cpacr := Function.update_self _ _ _
  have hl : Function.update s.lastFpen (s.sys.curr c) (fpen cpacr) (s.sys.curr c) = fpen cpacr :=
    Function.update_self _ _ _
  have hon : FpOn cpacr → FpOn (s.sys.cpacrEl1 c) ∨ s.sys.Valid c (s.sys.curr c) := fun ho =>
    hg.imp (fun hg => hg.mp ho) id
  refine h.here hc rfl rfl ⟨fun d hd => Function.update_of_ne hd _ _, fun _ _ => rfl, fun _ _ => rfl,
    fun _ _ => rfl, fun _ _ => rfl, fun u hu => Function.update_of_ne hu _ _, fun _ _ => rfl, .inl rfl⟩
    (fun _ _ hv => hv) rfl ⟨?_, fun ho => ?_, fun ho hn => ?_, fun ho u hu => ?_, fun ho => ?_, hr.started⟩
    fun u hu hv => ?_
  · exact (congrArg LkHv.Thread.fpen hcp).trans hl.symm
  · change FpOn (Function.update s.sys.cpacrEl1 c cpacr c) ∨ s.sys.Valid c (s.sys.curr c) at ho
    rw [hcp] at ho
    exact hr.regs (ho.elim hon .inr)
  · change ¬ FpOn (Function.update s.sys.cpacrEl1 c cpacr c) at ho
    rw [hcp] at ho
    exact hr.saved (fun ho' => ho ((hg.resolve_right hn).mpr ho')) hn
  · change FpOn (Function.update s.sys.cpacrEl1 c cpacr c) at ho
    rw [hcp] at ho
    exact (hon ho).elim (fun ho => hr.only ho u hu) fun hv => hv.unique hu
  · change FpOn (Function.update s.sys.cpacrEl1 c cpacr c) at ho
    rw [hcp] at ho
    exact (hon ho).elim hr.owner .inl
  · exact h.valid c hc u hv fun e => hu (Option.some.inj e).symm

theorem FpuInv.writeRegs (h : FpuInv.All cpus s) (hc : c < cpus) (ho : FpOn (s.sys.cpacrEl1 c)) (f : FpRegs) :
    FpuInv.All cpus
      { s with
        sys := { s.sys with fpRegs := Function.update s.sys.fpRegs c f }
        held := Function.update s.held (s.sys.curr c) f } := by
  have hr := h.run c hc _ rfl
  have hf : Function.update s.sys.fpRegs c f c = f := Function.update_self _ _ _
  have hh : Function.update s.held (s.sys.curr c) f (s.sys.curr c) = f := Function.update_self _ _ _
  refine h.here hc rfl rfl ⟨fun _ _ => rfl, fun d hd => Function.update_of_ne hd _ _, fun _ _ => rfl,
    fun _ _ => rfl, fun _ _ => rfl, fun _ _ => rfl, fun u hu => Function.update_of_ne hu _ _, .inl rfl⟩
    (fun _ _ hv => hv) rfl ⟨hr.fpen, fun _ => hf.trans hh.symm, fun hn => absurd ho hn, hr.only, hr.owner,
      hr.started⟩ fun u hu hv => ?_
  exact absurd (hr.only ho u hv) hu

/-- a load for the thread that runs, where FP was disabled and is enabled now -/
theorem FpuInv.load (h : FpuInv.All cpus s) (hc : c < cpus) (hno : ¬ s.sys.Valid c (s.sys.curr c))
    (ho : ¬ FpOn (s.sys.cpacrEl1 c)) (cpacr : Nat) :
    FpuInv.All cpus
      { s with
        sys := (s.sys.writeCpacr c cpacr).loadState c (s.sys.curr c)
        lastFpen := Function.update s.lastFpen (s.sys.curr c) (fpen cpacr) } := by
  have hr := h.run c hc _ rfl
  have hcp : Function.update s.sys.cpacrEl1 c cpacr c = cpacr := Function.update_self _ _ _
  have hl : Function.update s.lastFpen (s.sys.curr c) (fpen cpacr) (s.sys.curr c) = fpen cpacr :=
    Function.update_self _ _ _
  have hown : Function.update s.sys.currentFpstate c (some (s.sys.curr c)) c = some (s.sys.curr c) :=
    Function.update_self _ _ _
  have hf : Function.update s.sys.fpstate (s.sys.curr c)
      (⟨(s.sys.fpstate (s.sys.curr c)).values, c, (s.sys.fpstate (s.sys.curr c)).cpacr⟩ : Fpstate) (s.sys.curr c) =
      ⟨(s.sys.fpstate (s.sys.curr c)).values, c, (s.sys.fpstate (s.sys.curr c)).cpacr⟩ := Function.update_self _ _ _
  have hvalues := congrArg Fpstate.values hf
  have hcpu := congrArg Fpstate.currentCpu hf
  have hregs : Function.update s.sys.fpRegs c (s.sys.fpstate (s.sys.curr c)).values c =
      (s.sys.fpstate (s.sys.curr c)).values := Function.update_self _ _ _
  rw [loadState_not (by exact hno)]
  refine h.here hc rfl rfl ⟨fun d hd => Function.update_of_ne hd _ _, fun d hd => Function.update_of_ne hd _ _,
    fun d hd => Function.update_of_ne hd _ _, fun u hu => Function.update_of_ne hu _ _, fun _ _ => rfl,
    fun u hu => Function.update_of_ne hu _ _, fun _ _ => rfl, .inr hown⟩ (fun d hd hv => ?_) hvalues
    ⟨?_, fun _ => ?_, fun _ _ => ?_, fun _ u hu => ?_, fun _ => .inl ⟨hown, hcpu⟩, hr.started⟩ fun u hu hv => ?_
  · exact absurd (hv.2.symm.trans hcpu) hd
  · exact (congrArg LkHv.Thread.fpen hcp).trans hl.symm
  · exact hregs.trans (hr.saved ho hno)
  · exact hvalues.trans (hr.saved ho hno)
  · exact Option.some.inj (hu.1.symm.trans hown)
  · exact absurd (Option.some.inj (hv.1.symm.trans hown)) hu

/-- **A trap.** -/
theorem FpuInv.fpuException (h : FpuInv.All cpus s) (hc : c < cpus)
    (hg : LkHv.Thread.fpen (s.sys.cpacrEl1 c) = 3 ∨ ¬ FpOn (s.sys.cpacrEl1 c) ∨ s.sys.Valid c (s.sys.curr c)) :
    FpuInv.All cpus
      { s with
        sys := s.sys.fpuException c
        lastFpen := Function.update s.lastFpen (s.sys.curr c) 3 } := by
  have hor : LkHv.Thread.fpen (s.sys.cpacrEl1 c % 2 ^ 32 ||| 3 <<< 20) = 3 := fpen_or _
  unfold Fpu.fpuException
  dsimp only
  rw [fpen_mod]
  by_cases h3 : LkHv.Thread.fpen (s.sys.cpacrEl1 c) = 3
  · rw [if_neg (not_not.mpr h3)]
    have hl : Function.update s.lastFpen (s.sys.curr c) 3 = s.lastFpen := by
      rw [← h3, (h.run c hc _ rfl).fpen]
      exact Function.update_eq_self _ _
    rw [hl]
    exact h
  · rw [if_pos h3]
    by_cases hv : s.sys.Valid c (s.sys.curr c)
    · have hw := h.writeCpacr hc (s.sys.cpacrEl1 c % 2 ^ 32 ||| 3 <<< 20) (.inr hv)
      rw [hor] at hw
      rw [loadState_valid (by exact hv)]
      exact hw
    · have hw := h.load hc hv ((hg.resolve_left h3).resolve_right hv) (s.sys.cpacrEl1 c % 2 ^ 32 ||| 3 <<< 20)
      rw [hor] at hw
      exact hw

/-- a new thread, at an address that CPU 0 does not hold the registers of -/
theorem FpuInv.create (h : FpuInv.All cpus s) (hidle : s.Idle cpus t) (hg : s.sys.currentFpstate 0 ≠ some t) :
    FpuInv.All cpus { s with sys := s.sys.initThread t, held := Function.update s.held t .zero } := by
  have hf : Function.update s.sys.fpstate t Fpstate.init t = .init := Function.update_self _ _ _
  have hh : Function.update s.held t FpRegs.zero t = .zero := Function.update_self _ _ _
  have hst : Function.update s.sys.started t false t = false := Function.update_self _ _ _
  have hno : ∀ d, ¬ (s.sys.initThread t).Valid d t := fun d hv => by
    have h1 := hv.2
    change (Function.update s.sys.fpstate t Fpstate.init t).currentCpu = d at h1
    rw [hf] at h1
    have h2 := hv.1
    rw [← h1] at h2
    exact hg h2
  refine FpuInv.local (c := cpus) (t := t) h ⟨fun _ _ => rfl, fun _ _ => rfl, fun _ _ => rfl,
    fun u hu => Function.update_of_ne hu _ _, fun u hu => Function.update_of_ne hu _ _, fun _ _ => rfl,
    fun u hu => Function.update_of_ne hu _ _, .inl rfl⟩ (fun _ _ => rfl) (fun hc => absurd hc (Nat.lt_irrefl _))
    (fun d hd _ e => hidle d hd (Option.some.inj e)) (fun d _ hv => absurd hv (hno d))
    (fun hc => absurd hc (Nat.lt_irrefl _)) (fun _ => ⟨?_, fun e => ?_⟩) fun hc => absurd hc (Nat.lt_irrefl _)
  · exact (congrArg Fpstate.values hf).trans hh.symm
  · exact absurd (hst.symm.trans e) (by decide)

/-- the saving leaves the CPUs alone -/
theorem preContextSwitch_frame (f : Fpu) (c t : Nat) :
    (f.preContextSwitch c t).curr = f.curr ∧ (f.preContextSwitch c t).cpacrEl1 = f.cpacrEl1 ∧
      (f.preContextSwitch c t).started = f.started := by
  unfold Fpu.preContextSwitch
  dsimp only
  split
  · exact ⟨rfl, rfl, rfl⟩
  · exact ⟨rfl, rfl, rfl⟩

theorem loadState_curr (f : Fpu) (c t : Nat) : (f.loadState c t).curr = f.curr := by
  unfold Fpu.loadState
  split
  · rfl
  · rfl

theorem afterSwitch_curr (f : Fpu) (c t : Nat) : (f.afterSwitch c t).curr = f.curr := by
  unfold Fpu.afterSwitch Fpu.postContextSwitch
  dsimp only
  split
  · split
    · exact loadState_curr _ c t
    · rfl
  · rfl

/-- **A switch**: a thread goes out and one comes in. -/
theorem FpuInv.switchTo (h : FpuInv.All cpus s) (hc : c < cpus) (hidle : s.Idle cpus t)
    (hg : FpuGuard s (.switchTo c t)) : FpuInv.All cpus (fpuStep s (.switchTo c t)) := by
  obtain ⟨h1, h2, h3⟩ := preContextSwitch_frame s.sys c (s.sys.curr c)
  have hout := h.switchOut hc rfl hg.1
  have hin := hout.switchIn (t := t) hc (Function.update_self _ _ _) (fun d hd e => ?_) ?_
  · have hcur : (fun d => some ((fpuStep s (.switchTo c t)).sys.curr d)) =
        Function.update (Function.update (fun d => some (s.sys.curr d)) c none) c (some t) := by
      funext d
      have hd : (fpuStep s (.switchTo c t)).sys.curr = Function.update s.sys.curr c t := by
        refine (afterSwitch_curr _ c t).trans ?_
        exact congrArg (fun f => Function.update f c t) h1
      rw [hd, Function.update_idem]
      by_cases hdc : d = c
      · rw [hdc, Function.update_self, Function.update_self]
      · rw [Function.update_of_ne hdc, Function.update_of_ne hdc]
    unfold FpuInv.All
    rw [hcur]
    rw [h2, h3] at hin
    exact hin
  · by_cases hdc : d = c
    · rw [hdc, Function.update_self] at e
      cases e
    · rw [Function.update_of_ne hdc] at e
      exact hidle d hd (Option.some.inj e)
  · rw [h2, h3]
    exact hg.2

theorem FpuInv.step (h : FpuInv.All cpus s) {op : FpuOp} (hg : FpuGuard s op) (he : FpuEnabled cpus s op) :
    FpuInv.All cpus (fpuStep s op) := by
  cases op with
  | switchTo c t => exact h.switchTo he.1 he.2 hg
  | create t => exact h.create he hg
  | writeCpacr c cpacr => exact h.writeCpacr he _ hg
  | writeRegs c f => exact h.writeRegs he.1 he.2 f
  | trap c => exact h.fpuException he hg

end

/-! ## runs on one CPU -/

end Thread
end LkHv
