import LkHv.Lib.Machine
import LkHv.Lib.Transfer
import LkHv.Vgic.Sgi

/-!
# The registers of a vCPU (`hv_arch_vcpu_asm.S`, `hv_arch_vcpu.c`)

The EL1 registers of a CPU go to `struct arch_vcpu` when its vCPU is switched out, and come back from there when it
is switched in.

* `SysReg`, `fieldOffset`    the registers, in the order of the fields of `struct arch_vcpu`;
* `contextSaveCode`, `contextRestoreCode`   the two assembly functions;
* `contextSave`, `contextRestore`, `hvVcpuArchInit`, `vcpuSwitchTo`   what they do, and who calls them;
* `ctxSys`                   guests, starts and switches in any order, with the registers of each vCPU's last save;
* `context_round_trip`       a vCPU gets its registers back exactly when its two stack pointers were equal.
-/

namespace LkHv
namespace Vcpu
open Transfer

/-- the registers that are saved -/
inductive SysReg
  | sctlrEl1 | actlrEl1 | cpacrEl1 | contextidrEl1 | csselrEl1 | esrEl1 | hcrEl2 | ttbr0El1 | ttbr1El1 | vbarEl1
  | tcrEl1 | mairEl1 | amairEl1 | tpidrEl0 | tpidrEl1 | tpidrroEl0 | vmpidrEl2 | farEl1 | parEl1 | afsr0El1 | afsr1El1
  | fpsr | fpcr | spEl0 | spEl1 | elrEl1 | spsrEl1
deriving DecidableEq

abbrev Word := BitVec 64

/-- the values of the registers -/
abbrev SysRegs := SysReg → Word

/-- the place of a register among the fields of `struct arch_vcpu` -/
def fieldIndex : SysReg → Nat
  | .sctlrEl1 => 0 | .actlrEl1 => 1 | .cpacrEl1 => 2 | .contextidrEl1 => 3 | .csselrEl1 => 4 | .esrEl1 => 5
  | .hcrEl2 => 6 | .ttbr0El1 => 7 | .ttbr1El1 => 8 | .vbarEl1 => 9 | .tcrEl1 => 10 | .mairEl1 => 11
  | .amairEl1 => 12 | .tpidrEl0 => 13 | .tpidrEl1 => 14 | .tpidrroEl0 => 15 | .vmpidrEl2 => 16 | .farEl1 => 17
  | .parEl1 => 18 | .afsr0El1 => 19 | .afsr1El1 => 20 | .fpsr => 21 | .fpcr => 22 | .spEl0 => 23 | .spEl1 => 24
  | .elrEl1 => 25 | .spsrEl1 => 26

def fieldOffset (r : SysReg) : Nat := 8 * fieldIndex r

/-! ## the assembly -/

/-- `hv_arch_vcpu_context_save` -/
def contextSaveCode : List (Insn SysReg) :=
  [.mrs 1 .sctlrEl1, .mrs 2 .actlrEl1, .stp 1 2, .mrs 1 .cpacrEl1, .mrs 2 .contextidrEl1, .stp 1 2,
   .mrs 1 .csselrEl1, .mrs 2 .esrEl1, .stp 1 2,
   .mrs 1 .hcrEl2, .mrs 2 .ttbr0El1, .stp 1 2,
   .mrs 1 .ttbr1El1, .mrs 2 .vbarEl1, .stp 1 2,
   .mrs 1 .tcrEl1, .mrs 2 .mairEl1, .stp 1 2,
   .mrs 1 .amairEl1, .mrs 2 .tpidrEl0, .stp 1 2,
   .mrs 1 .tpidrEl1, .mrs 2 .tpidrroEl0, .stp 1 2,
   .mrs 1 .vmpidrEl2, .mrs 2 .farEl1, .stp 1 2,
   .mrs 1 .parEl1, .mrs 2 .afsr0El1, .stp 1 2,
   .mrs 1 .afsr1El1, .mrs 2 .fpsr, .stp 1 2,
   .mrs 1 .fpcr, .str 1,
   .mrs 2 .spEl0, .mrs 1 .spEl1, .stp 1 2,
   .mrs 1 .elrEl1, .mrs 2 .spsrEl1, .stp 1 2]

/-- `hv_arch_vcpu_context_restore` -/
def contextRestoreCode : List (Insn SysReg) :=
  [.ldp 1 2, .msr .sctlrEl1 1, .msr .actlrEl1 2, .ldp 1 2, .msr .cpacrEl1 1, .msr .contextidrEl1 2,
   .ldp 1 2, .msr .csselrEl1 1, .msr .esrEl1 2,
   .ldp 1 2, .msr .hcrEl2 1, .msr .ttbr0El1 2,
   .ldp 1 2, .msr .ttbr1El1 1, .msr .vbarEl1 2,
   .ldp 1 2, .msr .tcrEl1 1, .msr .mairEl1 2,
   .ldp 1 2, .msr .amairEl1 1, .msr .tpidrEl0 2,
   .ldp 1 2, .msr .tpidrEl1 1, .msr .tpidrroEl0 2,
   .ldp 1 2, .msr .vmpidrEl2 1, .msr .farEl1 2,
   .ldp 1 2, .msr .parEl1 1, .msr .afsr0El1 2,
   .ldp 1 2, .msr .afsr1El1 1, .msr .fpsr 2,
   .ldp 1 2, .msr .fpcr 1, .msr .spEl0 2,
   .ldp 1 2, .msr .spEl1 1, .msr .elrEl1 2,
   .ldr 1, .msr .spsrEl1 1]

/-- the order in which the save code stores -/
def saveOrder : List SysReg :=
  [.sctlrEl1, .actlrEl1, .cpacrEl1, .contextidrEl1, .csselrEl1, .esrEl1, .hcrEl2, .ttbr0El1, .ttbr1El1, .vbarEl1,
   .tcrEl1, .mairEl1, .amairEl1, .tpidrEl0, .tpidrEl1, .tpidrroEl0, .vmpidrEl2, .farEl1, .parEl1, .afsr0El1, .afsr1El1,
   .fpsr, .fpcr, .spEl1, .spEl0, .elrEl1, .spsrEl1]

/-- the memory of a `struct arch_vcpu` behind a save, by byte offsets -/
def contextSave (sys : SysRegs) (mem : Nat → Word) : Nat → Word :=
  (exec ⟨0, fun _ => 0, sys, mem⟩ contextSaveCode).mem

/-- the registers behind a restore -/
def contextRestore (sys : SysRegs) (mem : Nat → Word) : SysRegs :=
  (exec ⟨0, fun _ => 0, sys, mem⟩ contextRestoreCode).sys

theorem contextSave_eq (sys : SysRegs) (mem : Nat → Word) :
    contextSave sys mem = writeWords mem 0 (saveOrder.map sys) := rfl

/-- a restore loads every register from its field -/
theorem contextRestore_eq (sys : SysRegs) (mem : Nat → Word) (r : SysReg) :
    contextRestore sys mem r = mem (fieldOffset r) := by
  cases r <;> rfl

theorem contextSave_get (sys : SysRegs) (mem : Nat → Word) {i : Nat} {r : SysReg} (h : saveOrder[i]? = some r) :
    contextSave sys mem (8 * i) = sys r := by
  obtain ⟨hi, he⟩ := List.getElem?_eq_some_iff.mp h
  have hlt : i < (saveOrder.map sys).length := by rwa [List.length_map]
  have hget : writeWords mem 0 (saveOrder.map sys) (0 + 8 * i) = (saveOrder.map sys)[i] := writeWords_get hlt
  rw [Nat.zero_add] at hget
  rw [contextSave_eq, hget, List.getElem_map, he]

/-! ## save and restore -/

/-- the registers with the two stack pointers exchanged -/
def swapSp (regs : SysRegs) : SysRegs
  | .spEl0 => regs .spEl1
  | .spEl1 => regs .spEl0
  | r => regs r

/-- the register that the save code puts into a field -/
theorem contextSave_field (sys : SysRegs) (mem : Nat → Word) (r : SysReg) :
    contextSave sys mem (fieldOffset r) = swapSp sys r := by
  cases r <;> exact contextSave_get sys mem rfl

theorem swapSp_eq_iff (regs : SysRegs) : swapSp regs = regs ↔ regs .spEl0 = regs .spEl1 := by
  constructor
  · exact fun h => (congrFun h .spEl0).symm
  · intro h
    funext r
    cases r
    case spEl0 => exact h.symm
    case spEl1 => exact h
    all_goals rfl

/-! ## the switches -/

def HCR_GUEST_DEFAULT : Word :=
  1 <<< 19 ||| 1 <<< 0 ||| 1 <<< 10 ||| 1 <<< 9 ||| 1 <<< 5 ||| 1 <<< 1 ||| 1 <<< 31 ||| 1 <<< 3 ||| 1 <<< 4 ||| 1 <<< 2

/-- the CPUs and the vCPUs; `saved` has the registers at the last save of a vCPU, unless its context was initialised
since then -/
structure Ctx where
  sys : Nat → SysRegs
  current : Nat → Option VcpuId
  archVcpu : VcpuId → Nat → Word
  isInited : VcpuId → Bool
  saved : VcpuId → Option SysRegs

/-- `hv_vcpu_arch_init` on a CPU, and `is_inited` set behind it -/
def hvVcpuArchInit (s : Ctx) (cpu : Nat) (v : VcpuId) : Ctx :=
  { s with
    archVcpu := Function.update s.archVcpu v
      (Function.update (Function.update (s.archVcpu v) (fieldOffset .hcrEl2) HCR_GUEST_DEFAULT)
        (fieldOffset .vmpidrEl2) (BitVec.ofNat 64 (Vgic.cpuIdToMpidr v.id)))
    sys := Function.update s.sys cpu (Function.update (s.sys cpu) .cpacrEl1 0)
    isInited := Function.update s.isInited v true
    saved := Function.update s.saved v none }

/-- the save half of `hv_vcpu_arch_contex_switch` -/
def saveOld (s : Ctx) (cpu : Nat) : Ctx :=
  match s.current cpu with
  | some old =>
    { s with
      archVcpu := Function.update s.archVcpu old (contextSave (s.sys cpu) (s.archVcpu old))
      saved := Function.update s.saved old (some (s.sys cpu)) }
  | none => s

/-- the restore half -/
def restoreNew (s : Ctx) (cpu : Nat) (v : VcpuId) : Ctx :=
  { s with
    sys := Function.update s.sys cpu (contextRestore (s.sys cpu) (s.archVcpu v))
    current := Function.update s.current cpu (some v) }

/-- `vcpu_switch_to` on a CPU -/
def vcpuSwitchTo (s : Ctx) (cpu : Nat) (v : VcpuId) : Ctx :=
  if s.current cpu = some v ∨ s.isInited v = false then s else restoreNew (saveOld s cpu) cpu v

inductive CtxOp
  /-- the registers of the CPU get any content -/
  | guest (cpu : Nat) (regs : SysRegs)
  | archInit (cpu : Nat) (v : VcpuId)
  | switchTo (cpu : Nat) (v : VcpuId)

def ctxStep (s : Ctx) : CtxOp → Ctx
  | .guest cpu regs => { s with sys := Function.update s.sys cpu regs }
  | .archInit cpu v => hvVcpuArchInit s cpu v
  | .switchTo cpu v => vcpuSwitchTo s cpu v

/-- no vCPU has run yet -/
def CtxInit (s : Ctx) : Prop := ∀ v, s.saved v = none

def ctxSys : Machine Ctx CtxOp := Machine.ofFun CtxInit fun s op => some (ctxStep s op)

section
variable {s : Ctx} {cpu : Nat} {v : VcpuId} {regs : SysRegs}

/-- the fields of a vCPU that was saved -/
def SavedOk (s : Ctx) : Prop := ∀ v regs, s.saved v = some regs → ∀ r, s.archVcpu v (fieldOffset r) = swapSp regs r

theorem saveOld_ok (h : SavedOk s) (cpu : Nat) : SavedOk (saveOld s cpu) := by
  unfold saveOld
  split
  · rename_i old _
    intro v regs hv r
    dsimp only at hv ⊢
    by_cases he : v = old
    · rw [he, Function.update_self] at hv ⊢
      cases hv
      exact contextSave_field _ _ r
    · rw [Function.update_of_ne he] at hv ⊢
      exact h v regs hv r
  · exact h

theorem ctxStep_ok (h : SavedOk s) (op : CtxOp) : SavedOk (ctxStep s op) := by
  cases op with
  | guest cpu regs => exact h
  | archInit cpu v =>
    intro u regs hu r
    change Function.update s.saved v none u = some regs at hu
    show Function.update s.archVcpu v _ u (fieldOffset r) = swapSp regs r
    by_cases he : u = v
    · rw [he, Function.update_self] at hu
      cases hu
    · rw [Function.update_of_ne he] at hu ⊢
      exact h u regs hu r
  | switchTo cpu v =>
    show SavedOk (vcpuSwitchTo s cpu v)
    unfold vcpuSwitchTo
    split
    · exact h
    · exact saveOld_ok h cpu

theorem reach_ok (hr : ctxSys.Reach s) : SavedOk s := by
  refine hr.invariant (fun s h0 => ?_) fun s op s' h _ hs => ?_
  · intro v regs hv
    rw [h0 v] at hv
    cases hv
  · cases hs
    exact ctxStep_ok h op

/-- the save of another vCPU leaves the context alone -/
theorem saveOld_other (hcur : s.current cpu ≠ some v) : (saveOld s cpu).archVcpu v = s.archVcpu v := by
  unfold saveOld
  split
  · rename_i old hold
    refine Function.update_of_ne (fun he => hcur ?_) _ _
    rw [hold, he]
  · rfl

/-- what a switch loads -/
theorem switchTo_sys (hr : ctxSys.Reach s) (hinit : s.isInited v = true) (hcur : s.current cpu ≠ some v)
    (hsaved : s.saved v = some regs) : (vcpuSwitchTo s cpu v).sys cpu = swapSp regs := by
  unfold vcpuSwitchTo
  rw [if_neg]
  · unfold restoreNew
    dsimp only
    rw [Function.update_self, saveOld_other hcur]
    funext r
    rw [contextRestore_eq]
    exact reach_ok hr v regs hsaved r
  · rintro (h | h)
    · exact hcur h
    · rw [hinit] at h
      cases h

end

/-- **The round trip.**  In every state that guests, starts and switches lead to, a vCPU that was saved and is
switched in on any CPU gets its registers back exactly when its stack pointers were equal at the save. -/
theorem context_round_trip {s : Ctx} (hr : ctxSys.Reach s) {cpu : Nat} {v : VcpuId} {regs : SysRegs}
    (hinit : s.isInited v = true) (hcur : s.current cpu ≠ some v) (hsaved : s.saved v = some regs) :
    (ctxStep s (.switchTo cpu v)).sys cpu = regs ↔ regs .spEl0 = regs .spEl1 := by
  show (vcpuSwitchTo s cpu v).sys cpu = regs ↔ _
  rw [switchTo_sys hr hinit hcur hsaved]
  exact swapSp_eq_iff regs

/-! ## two vCPUs on a CPU -/

/-- nothing has run -/
def bootCtx : Ctx := ⟨fun _ _ => 0, fun _ => none, fun _ _ => 0, fun _ => false, fun _ => none⟩

/-- vCPU 0 runs with the registers `regs`, then vCPU 1 is started -/
def twoVcpus (regs : SysRegs) : List CtxOp :=
  [.archInit 0 ⟨0, 0⟩, .switchTo 0 ⟨0, 0⟩, .archInit 0 ⟨0, 1⟩, .guest 0 regs, .switchTo 0 ⟨0, 1⟩]

/-- the state behind them -/
def switched (regs : SysRegs) : Ctx := (twoVcpus regs).foldl ctxStep bootCtx

theorem switched_reach (regs : SysRegs) : ctxSys.Reach (switched regs) := by
  have h0 : ctxSys.Reach bootCtx := .init fun _ => rfl
  exact h0.exec (twoVcpus regs) rfl

theorem switched_saved (regs : SysRegs) : (switched regs).isInited ⟨0, 0⟩ = true ∧
    (switched regs).current 0 ≠ some ⟨0, 0⟩ ∧ (switched regs).saved ⟨0, 0⟩ = some regs := by
  refine ⟨rfl, ?_, rfl⟩
  show some (⟨0, 1⟩ : VcpuId) ≠ some ⟨0, 0⟩
  decide

/-- the theorem for registers that are all zero -/
theorem context_round_trip_zero :
    (ctxStep (switched fun _ => 0) (.switchTo 0 ⟨0, 0⟩)).sys 0 = (fun _ => 0) ↔ (0 : Word) = 0 :=
  context_round_trip (switched_reach _) (switched_saved _).1 (switched_saved _).2.1 (switched_saved _).2.2

/-- a stack pointer of EL1 -/
def kernelStack : SysRegs
  | .spEl1 => 0x1000
  | _ => 0

/-- **A vCPU with a kernel stack** comes back with it in SP_EL0. -/
theorem context_round_trip_fails : ¬ ∀ (s : Ctx) (cpu : Nat) (v : VcpuId) (regs : SysRegs), ctxSys.Reach s →
    s.isInited v = true → s.current cpu ≠ some v → s.saved v = some regs →
    (ctxStep s (.switchTo cpu v)).sys cpu = regs := by
  intro hall
  obtain ⟨h1, h2, h3⟩ := switched_saved kernelStack
  have hsys := hall (switched kernelStack) 0 ⟨0, 0⟩ kernelStack (switched_reach _) h1 h2 h3
  have hsp := congrFun hsys .spEl0
  have hload : (ctxStep (switched kernelStack) (.switchTo 0 ⟨0, 0⟩)).sys 0 = swapSp kernelStack :=
    switchTo_sys (switched_reach _) h1 h2 h3
  rw [hload] at hsp
  exact absurd hsp (by decide)

end Vcpu
end LkHv
