import LkHv.Lib.Machine
import LkHv.Vgic.Irq

/-!
# The virtual timer of a vCPU (`hv_vtimer.c`)

The architected virtual timer of a CPU compares CNTV_CVAL with the virtual count, the physical count less
CNTVOFF_EL2.  CNTV_TVAL is a view of it: a read gives the low 32 bits of what is left, and a write sets CNTV_CVAL
that far ahead of the virtual count of the moment.

* `Timer`, `readTval`, `writeTval`, `writeCtl`   the timer of a CPU;
* `hvVtimerContextSave`, `hvVtimerContextRestore`, `hvVcpuVtimerInit`   the source's;
* `vtimerSys`        guests, starts and switches in any order, while the count runs;
* `vtimer_restored`  a vCPU gets its timer back exactly when the TVAL write hits the old CVAL, under its own offset.
-/

namespace LkHv
namespace Vcpu
namespace Vtimer

abbrev Word := BitVec 64

/-- the virtual timer of a CPU; of the control register the bits that are written: ENABLE and IMASK -/
structure Timer where
  cntvoff : Word
  cval : Word
  ctl : BitVec 2

/-- the virtual count at a physical count -/
def Timer.vcount (t : Timer) (count : Word) : Word := count - t.cntvoff

/-- CNTV_CTL_EL0, with ISTATUS -/
def Timer.readCtl (t : Timer) (count : Word) : Word :=
  t.ctl.setWidth 64 ||| if t.ctl.getLsbD 0 = true ∧ t.cval ≤ t.vcount count then 4 else 0

def Timer.writeCtl (t : Timer) (val : Word) : Timer := { t with ctl := val.setWidth 2 }

/-- CNTV_TVAL_EL0: the low half of what is left -/
def Timer.readTval (t : Timer) (count : Word) : Word := ((t.cval - t.vcount count).setWidth 32).setWidth 64

/-- **A write of CNTV_TVAL_EL0** -/
def Timer.writeTval (t : Timer) (count val : Word) : Timer :=
  { t with cval := t.vcount count + (val.setWidth 32).signExtend 64 }

/-- `struct arch_vtimer` -/
structure ArchVtimer where
  cntpct : Word
  cntvoffEl2 : Word
  cntvctlEl1 : Word
  cntvcvalEl1 : Word
  cntvtvalEl1 : Word

def HV_VTIMER_ENABLE : Word := 1

/-- `hv_vtimer_context_save`; `at_ i` is the physical count at the `i`-th register access -/
def hvVtimerContextSave (t : Timer) (vt : ArchVtimer) (at_ : Nat → Word) : Timer × ArchVtimer :=
  let cntvctlEl1 := t.readCtl (at_ 0)
  let t := t.writeCtl (cntvctlEl1 &&& ~~~HV_VTIMER_ENABLE)
  (t, { vt with
    cntvctlEl1 := cntvctlEl1
    cntpct := at_ 1
    cntvcvalEl1 := t.cval
    cntvtvalEl1 := t.readTval (at_ 2) })

/-- `hv_vtimer_context_restore`, at the physical count of the write of CNTV_TVAL_EL0 -/
def hvVtimerContextRestore (t : Timer) (vt : ArchVtimer) (count : Word) : Timer :=
  let t := t.writeCtl vt.cntvctlEl1
  let t := { t with cval := vt.cntvcvalEl1 }
  let t := t.writeTval count vt.cntvtvalEl1
  { t with cntvoff := vt.cntvoffEl2 }

/-- `hv_vcpu_vtimer_init` -/
def hvVcpuVtimerInit (count : Word) : ArchVtimer := ⟨0, count, 0, 0, 0⟩

/-! ## one save and one restore -/

/-- the timer a vCPU had, and the virtual count when CNTV_TVAL_EL0 was read -/
structure Saved where
  timer : Timer
  vcount : Word

/-- what is left of a timer that was saved -/
def Saved.left (x : Saved) : Word := x.timer.cval - x.vcount

/-- the same as a 32-bit CNTV_TVAL_EL0 has it -/
def Saved.left32 (x : Saved) : Word := (x.left.setWidth 32).signExtend 64

/-- the context of a vCPU that was saved with this timer -/
structure Holds (vt : ArchVtimer) (x : Saved) : Prop where
  ctl : vt.cntvctlEl1.setWidth 2 = x.timer.ctl
  cval : vt.cntvcvalEl1 = x.timer.cval
  tval : vt.cntvtvalEl1 = (x.left.setWidth 32).setWidth 64

/-- the control bits are read back -/
theorem readCtl_bits (t : Timer) (count : Word) : (t.readCtl count).setWidth 2 = t.ctl := by
  unfold Timer.readCtl
  apply BitVec.eq_of_getLsbD_eq
  intro i hi
  have hfour : (4 : Word).getLsbD i = false := by
    obtain rfl | rfl : i = 0 ∨ i = 1 := by omega
    · rfl
    · rfl
  rw [BitVec.getLsbD_setWidth, decide_eq_true hi, Bool.true_and, BitVec.getLsbD_or, BitVec.getLsbD_setWidth,
    decide_eq_true (show i < 64 by omega), Bool.true_and]
  split
  · rw [hfour, Bool.or_false]
  · rw [show (0 : Word).getLsbD i = false from BitVec.getLsbD_zero, Bool.or_false]

theorem save_holds (t : Timer) (vt : ArchVtimer) (at_ : Nat → Word) :
    Holds (hvVtimerContextSave t vt at_).2 ⟨t, t.vcount (at_ 2)⟩ :=
  ⟨readCtl_bits t (at_ 0), rfl, rfl⟩

/-- **What a restore leaves**: CNTV_CVAL is the virtual count under the offset that is still there, plus what was
left. -/
theorem restore_eq {vt : ArchVtimer} {x : Saved} (h : Holds vt x) (t : Timer) (count : Word) :
    hvVtimerContextRestore t vt count = ⟨vt.cntvoffEl2, t.vcount count + x.left32, x.timer.ctl⟩ := by
  have hlow : (vt.cntvtvalEl1.setWidth 32).signExtend 64 = x.left32 := by
    unfold Saved.left32
    rw [h.tval, BitVec.setWidth_setWidth_of_le _ (by decide), BitVec.setWidth_eq]
  show (⟨vt.cntvoffEl2, _ + (vt.cntvtvalEl1.setWidth 32).signExtend 64, vt.cntvctlEl1.setWidth 2⟩ : Timer) = _
  rw [hlow, h.ctl]
  rfl

/-- the deadline is the old one -/
theorem deadline_iff (x : Saved) (now : Word) :
    now + x.left32 = x.timer.cval ↔ now - x.vcount = x.left - x.left32 := by
  unfold Saved.left
  generalize x.left32 = l
  constructor
  · intro h
    rw [← h]
    bv_omega
  · intro h
    bv_omega

/-! ## runs -/

/-- the CPUs, the vCPUs, and the physical count; `saved` has the timer at the last save of a vCPU, unless it was
initialised since then -/
structure Vtimers where
  count : Word
  timer : Nat → Timer
  current : Nat → Option VcpuId
  vtimer : VcpuId → ArchVtimer
  saved : VcpuId → Option Saved

inductive VtimerOp
  /-- time passes -/
  | tick (n : Nat)
  /-- the vCPU of a CPU writes its timer -/
  | guest (cpu : Nat) (cval : Word) (ctl : BitVec 2)
  | init (v : VcpuId)
  /-- `at_` are the counts of the accesses of the save, `count` is that of the write of CNTV_TVAL_EL0 -/
  | switchTo (cpu : Nat) (v : VcpuId) (at_ : Nat → Word) (count : Word)

/-- the save half of a switch -/
def saveOld (s : Vtimers) (cpu : Nat) (at_ : Nat → Word) : Vtimers :=
  match s.current cpu with
  | some old =>
    let r := hvVtimerContextSave (s.timer cpu) (s.vtimer old) at_
    { s with
      timer := Function.update s.timer cpu r.1
      vtimer := Function.update s.vtimer old r.2
      saved := Function.update s.saved old (some ⟨s.timer cpu, (s.timer cpu).vcount (at_ 2)⟩) }
  | none => s

/-- a switch, with its counts; `vcpu_switch_to` does nothing for the vCPU that is there already -/
def switchTo (s : Vtimers) (cpu : Nat) (v : VcpuId) (at_ : Nat → Word) (count : Word) : Vtimers :=
  if s.current cpu = some v then s
  else
    let s := saveOld s cpu at_
    { s with
      count := count
      timer := Function.update s.timer cpu (hvVtimerContextRestore (s.timer cpu) (s.vtimer v) count)
      current := Function.update s.current cpu (some v) }

def vtimerStep (s : Vtimers) : VtimerOp → Vtimers
  | .tick n => { s with count := s.count + BitVec.ofNat 64 n }
  | .guest cpu cval ctl => { s with timer := Function.update s.timer cpu ⟨(s.timer cpu).cntvoff, cval, ctl⟩ }
  | .init v =>
    { s with vtimer := Function.update s.vtimer v (hvVcpuVtimerInit s.count)
             saved := Function.update s.saved v none }
  | .switchTo cpu v at_ count => switchTo s cpu v at_ count

/-- no vCPU was saved yet -/
def VtimerInit (s : Vtimers) : Prop := ∀ v, s.saved v = none

def vtimerSys : Machine Vtimers VtimerOp := Machine.ofFun VtimerInit fun s op => some (vtimerStep s op)

section
variable {s : Vtimers} {cpu : Nat} {v : VcpuId} {x : Saved}

/-- the contexts of the vCPUs that were saved -/
def SavedOk (s : Vtimers) : Prop := ∀ v x, s.saved v = some x → Holds (s.vtimer v) x

theorem saveOld_ok (h : SavedOk s) (cpu : Nat) (at_ : Nat → Word) : SavedOk (saveOld s cpu at_) := by
  unfold saveOld
  split
  · rename_i old _
    intro v x hv
    dsimp only at hv ⊢
    by_cases he : v = old
    · rw [he, Function.update_self] at hv ⊢
      cases hv
      exact save_holds _ _ _
    · rw [Function.update_of_ne he] at hv ⊢
      exact h v x hv
  · exact h

theorem vtimerStep_ok (h : SavedOk s) (op : VtimerOp) : SavedOk (vtimerStep s op) := by
  cases op with
  | tick n => exact h
  | guest cpu cval ctl => exact h
  | init v =>
    intro u x hu
    change Function.update s.saved v none u = some x at hu
    show Holds (Function.update s.vtimer v _ u) x
    by_cases he : u = v
    · rw [he, Function.update_self] at hu
      cases hu
    · rw [Function.update_of_ne he] at hu ⊢
      exact h u x hu
  | switchTo cpu v at_ count =>
    show SavedOk (switchTo s cpu v at_ count)
    unfold switchTo
    split
    · exact h
    · exact saveOld_ok h cpu at_

theorem reach_ok (hr : vtimerSys.Reach s) : SavedOk s := by
  refine hr.invariant (fun s h0 => ?_) fun s op s' h _ hs => ?_
  · intro v x hv
    rw [h0 v] at hv
    cases hv
  · cases hs
    exact vtimerStep_ok h op

/-- the save of another vCPU leaves the context and the offset of the CPU alone -/
theorem saveOld_other (hcur : s.current cpu ≠ some v) (at_ : Nat → Word) :
    (saveOld s cpu at_).vtimer v = s.vtimer v ∧ ((saveOld s cpu at_).timer cpu).cntvoff = (s.timer cpu).cntvoff := by
  unfold saveOld
  split
  · rename_i old hold
    have hne : v ≠ old := fun he => hcur (by rw [hold, he])
    dsimp only
    rw [Function.update_of_ne hne, Function.update_self]
    exact ⟨rfl, rfl⟩
  · exact ⟨rfl, rfl⟩

/-- the timer that a switch leaves -/
theorem switchTo_timer (hr : vtimerSys.Reach s) (hcur : s.current cpu ≠ some v) (hsaved : s.saved v = some x)
    (at_ : Nat → Word) (count : Word) : (switchTo s cpu v at_ count).timer cpu =
      ⟨(s.vtimer v).cntvoffEl2, (s.timer cpu).vcount count + x.left32, x.timer.ctl⟩ := by
  obtain ⟨hvt, hoff⟩ := saveOld_other hcur at_
  unfold switchTo
  rw [if_neg hcur]
  dsimp only
  rw [Function.update_self, hvt, restore_eq (reach_ok hr v x hsaved)]
  unfold Timer.vcount
  rw [hoff]

end

/-- **The timer.**  In every state that guests, starts and switches lead to, a vCPU that was saved and is switched in
on any CPU gets its timer back exactly when its offset is that of the save, and the virtual count under the offset
that the CPU had before is ahead of that of the save by just what 32 bits do not hold of the time left. -/
theorem vtimer_restored {s : Vtimers} (hr : vtimerSys.Reach s) {cpu : Nat} {v : VcpuId} {x : Saved}
    (hcur : s.current cpu ≠ some v) (hsaved : s.saved v = some x) (at_ : Nat → Word) (count : Word) :
    (vtimerStep s (.switchTo cpu v at_ count)).timer cpu = x.timer ↔
      (s.vtimer v).cntvoffEl2 = x.timer.cntvoff ∧ (s.timer cpu).vcount count - x.vcount = x.left - x.left32 := by
  show (switchTo s cpu v at_ count).timer cpu = x.timer ↔ _
  rw [switchTo_timer hr hcur hsaved, ← deadline_iff]
  constructor
  · intro h
    exact ⟨congrArg Timer.cntvoff h, congrArg Timer.cval h⟩
  · rintro ⟨h1, h2⟩
    rw [h1, h2]

/-- nothing runs, at count 0 -/
def vtimerStart : Vtimers := ⟨0, fun _ => ⟨0, 0, 0⟩, fun _ => none, fun _ => ⟨0, 0, 0, 0, 0⟩, fun _ => none⟩

/-- two vCPUs on one CPU: the first is initialised at count 0 and the second at count 100; the first sets its deadline
to 1000 and is saved at count 200 -/
def twoVcpusRun : List VtimerOp :=
  [.init ⟨0, 0⟩, .tick 100, .init ⟨0, 1⟩, .switchTo 0 ⟨0, 0⟩ (fun _ => 100) 100, .guest 0 1000 1,
    .switchTo 0 ⟨0, 1⟩ (fun _ => 200) 200]

def twoVcpus : Vtimers := twoVcpusRun.foldl vtimerStep vtimerStart

theorem twoVcpus_reach : vtimerSys.Reach twoVcpus := by
  have h0 : vtimerSys.Reach vtimerStart := .init fun _ => rfl
  exact Machine.Run.exec h0 twoVcpusRun rfl

/-- what was saved of the first -/
def firstSaved : Saved := ⟨⟨0, 1000, 1⟩, 200⟩

theorem twoVcpus_saved : twoVcpus.saved ⟨0, 0⟩ = some firstSaved := rfl

theorem vtimer_restored_late :
    (vtimerStep twoVcpus (.switchTo 0 ⟨0, 0⟩ (fun _ => 300) 300)).timer 0 = firstSaved.timer :=
  (vtimer_restored twoVcpus_reach (show twoVcpus.current 0 ≠ some ⟨0, 0⟩ by decide) twoVcpus_saved (fun _ => 300)
    300).mpr ⟨rfl, rfl⟩

/-- back at count 250, with the offset of the other vCPU under the TVAL write, its deadline is 950 -/
theorem vtimer_deadline_moved : ¬ ∀ s : Vtimers, vtimerSys.Reach s → ∀ (cpu : Nat) (v : VcpuId) (x : Saved),
    s.current cpu ≠ some v → s.saved v = some x → ∀ (at_ : Nat → Word) (count : Word),
      (vtimerStep s (.switchTo cpu v at_ count)).timer cpu = x.timer := by
  intro h
  have hcval := congrArg Timer.cval (h twoVcpus twoVcpus_reach 0 ⟨0, 0⟩ firstSaved (by decide) twoVcpus_saved
    (fun _ => 250) 250)
  exact absurd hcval (by decide)

end Vtimer
end Vcpu
end LkHv
