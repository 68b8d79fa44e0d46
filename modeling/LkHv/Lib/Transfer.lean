import Mathlib.Algebra.Order.Group.Nat

/-!
# Register transfers

Straight-line code that moves a register file to memory and back through scratch registers, with a pointer that the
stores and loads move on.

* `Insn`, `exec`    the instructions and what they do;
* `writeWords`      a list of words at an address;
* `writeWords_get`, `writeWords_other`   what it holds then, and what it leaves alone.
-/

namespace LkHv
namespace Transfer

/-- the instructions over the registers `ρ`; the scratch registers have numbers, and the pointer is moved by the
size of what is stored or loaded -/
inductive Insn (ρ : Type)
  | mrs (x : Nat) (r : ρ)
  | msr (r : ρ) (x : Nat)
  | str (a : Nat)
  | stp (a b : Nat)
  | ldr (a : Nat)
  | ldp (a b : Nat)

/-- the machine: the pointer, the scratch registers, the register file and the memory by byte addresses of words -/
structure Regs (ρ ω : Type) where
  ptr : Nat
  x : Nat → ω
  sys : ρ → ω
  mem : Nat → ω

section
variable {ρ ω : Type} [DecidableEq ρ]

def step (s : Regs ρ ω) : Insn ρ → Regs ρ ω
  | .mrs x r => { s with x := Function.update s.x x (s.sys r) }
  | .msr r x => { s with sys := Function.update s.sys r (s.x x) }
  | .str a => { s with mem := Function.update s.mem s.ptr (s.x a), ptr := s.ptr + 8 }
  | .stp a b =>
    { s with mem := Function.update (Function.update s.mem s.ptr (s.x a)) (s.ptr + 8) (s.x b), ptr := s.ptr + 16 }
  | .ldr a => { s with x := Function.update s.x a (s.mem s.ptr), ptr := s.ptr + 8 }
  | .ldp a b =>
    { s with x := Function.update (Function.update s.x a (s.mem s.ptr)) b (s.mem (s.ptr + 8)), ptr := s.ptr + 16 }

def exec (s : Regs ρ ω) (code : List (Insn ρ)) : Regs ρ ω := code.foldl step s

end

section
variable {ω : Type}

/-- the words one after the other from `base` on -/
def writeWords (mem : Nat → ω) (base : Nat) : List ω → Nat → ω
  | [] => mem
  | v :: l => writeWords (Function.update mem base v) (base + 8) l

theorem writeWords_other {l : List ω} : ∀ {mem : Nat → ω} {base a : Nat},
    (∀ i < l.length, a ≠ base + 8 * i) → writeWords mem base l a = mem a := by
  induction l with
  | nil => exact fun _ => rfl
  | cons v l ih =>
    intro mem base a h
    have hlater : ∀ i < l.length, a ≠ base + 8 + 8 * i := by
      intro i hi
      have := h (i + 1) (by rw [List.length_cons]; lia)
      lia
    have hhere : a ≠ base := h 0 (by rw [List.length_cons]; lia)
    rw [writeWords, ih hlater, Function.update_of_ne hhere]

theorem writeWords_get {l : List ω} : ∀ {mem : Nat → ω} {base i : Nat} (h : i < l.length),
    writeWords mem base l (base + 8 * i) = l[i] := by
  induction l with
  | nil =>
    intro mem base i h
    cases h
  | cons v l ih =>
    intro mem base i h
    rw [writeWords]
    cases i with
    | zero =>
      rw [writeWords_other fun i _ => by lia, Nat.mul_zero, Nat.add_zero, Function.update_self]
      rfl
    | succ i =>
      rw [show base + 8 * (i + 1) = base + 8 + 8 * i by lia, ih (Nat.lt_of_succ_lt_succ h)]
      rfl

end

end Transfer
end LkHv
