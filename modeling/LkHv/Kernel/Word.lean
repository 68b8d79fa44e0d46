import Mathlib.Algebra.Order.Group.Nat
import Mathlib.Algebra.Order.Group.Int

/-!
# Machine words

The arithmetic of `int`, `uint`, `size_t`, `vaddr_t` and `paddr_t`, the rounding macros of `stdlib.h` and the
powers of two of `lk/pow2.h`.
-/

namespace LkHv

/-- the value of an `int` -/
def wrap32 (z : Int) : Int := z.bmod (2 ^ 32)

theorem wrap32_of_range {z : Int} (h1 : -2 ^ 31 ≤ z) (h2 : z < 2 ^ 31) : wrap32 z = z :=
  Int.bmod_eq_of_le (by lia) (by lia)

/-- `a + b` on 64 bits -/
def add64 (a b : Nat) : Nat := (a + b) % 2 ^ 64

/-- `a - b` on 64 bits -/
def sub64 (a b : Nat) : Nat := (a + (2 ^ 64 - b)) % 2 ^ 64

/-- the last address of the `size` bytes from `base` on: `base + size - 1` -/
def last64 (base size : Nat) : Nat := sub64 (add64 base size) 1

/-- `ROUNDUP` and `ALIGN` on 64 bits, `b` a power of two -/
def roundup64 (a b : Nat) : Nat := (a + (b - 1)) % 2 ^ 64 / b * b

/-- `ROUNDDOWN`, `b` a power of two -/
def rounddown (a b : Nat) : Nat := a / b * b

/-- `1UL << n` (the shift takes `n` modulo 64 on the hardware) -/
def shl1 (n : Nat) : Nat := 2 ^ (n % 64)

theorem shl1_pos (n : Nat) : 0 < shl1 n := Nat.pow_pos (by decide)

theorem shl1_le (n : Nat) : shl1 n ≤ 2 ^ 63 := Nat.pow_le_pow_right (by decide) (by omega)

theorem add64_of_lt {a b : Nat} (h : a + b < 2 ^ 64) : add64 a b = a + b := Nat.mod_eq_of_lt h

theorem sub64_of_le {a b : Nat} (ha : a < 2 ^ 64) (h : b ≤ a) : sub64 a b = a - b := by
  unfold sub64
  lia

/-- a range that does not wrap, up to the last byte of the 64 bits -/
theorem last64_eq {base size : Nat} (h : base + size ≤ 2 ^ 64) (hs : 0 < size) :
    last64 base size = base + size - 1 := by
  unfold last64 sub64 add64
  lia

/-- the first multiple of `b` from `a` on, if it is a 64-bit number -/
theorem roundup64_spec {a b : Nat} (hb : 0 < b) (h : a + (b - 1) < 2 ^ 64) :
    b ∣ roundup64 a b ∧ a ≤ roundup64 a b ∧ ∀ q, b ∣ q → a ≤ q → roundup64 a b ≤ q := by
  unfold roundup64
  rw [Nat.mod_eq_of_lt h]
  refine ⟨Nat.dvd_mul_left _ _, ?_, ?_⟩
  · have h1 := Nat.div_add_mod (a + (b - 1)) b
    have h2 := Nat.mod_lt (a + (b - 1)) hb
    rw [Nat.mul_comm] at h1
    omega
  · rintro q ⟨k, rfl⟩ hq
    rw [Nat.mul_comm b k]
    apply Nat.mul_le_mul_right
    apply Nat.le_of_lt_succ
    rw [Nat.div_lt_iff_lt_mul hb, Nat.succ_mul, Nat.mul_comm k b]
    omega

/-- otherwise it wraps to 0, and there is no such multiple -/
theorem roundup64_wrap {a b : Nat} (ha : a < 2 ^ 64) (hb : b ≤ 2 ^ 64) (hd : b ∣ 2 ^ 64)
    (h : 2 ^ 64 ≤ a + (b - 1)) : roundup64 a b = 0 ∧ ∀ q, b ∣ q → a ≤ q → 2 ^ 64 ≤ q := by
  have hpos : 0 < b := by omega
  constructor
  · unfold roundup64
    have h1 : (a + (b - 1)) % 2 ^ 64 = a + (b - 1) - 2 ^ 64 := by omega
    rw [h1, Nat.div_eq_of_lt (by omega), Nat.zero_mul]
  · rintro q ⟨k, rfl⟩ hq
    obtain ⟨m, hm⟩ := hd
    rw [hm]
    apply Nat.mul_le_mul_left
    by_contra hlt
    have := Nat.mul_le_mul_left b (show k + 1 ≤ m by omega)
    rw [Nat.mul_succ, ← hm] at this
    omega

/-! ## `lk/pow2.h` -/

/-- `a + b` on 32 bits -/
def add32 (a b : Nat) : Nat := (a + b) % 2 ^ 32

/-- `a - b` on 32 bits -/
def sub32 (a b : Nat) : Nat := (a + (2 ^ 32 - b)) % 2 ^ 32

/-- `31 - clz(val)` -/
def log2Uint (val : Nat) : Nat := if val = 0 then 0 else Nat.log2 val

/-- `1U << valp2` (the shift takes its count modulo 32 on the hardware) -/
def valpow2 (valp2 : Nat) : Nat := 2 ^ (valp2 % 32)

def modpow2 (val modp2 : Nat) : Nat := val &&& (shl1 modp2 - 1)

def roundUpPow2U32 (v : Nat) : Nat :=
  let v := sub32 v 1
  let v := v ||| v >>> 1
  let v := v ||| v >>> 2
  let v := v ||| v >>> 4
  let v := v ||| v >>> 8
  let v := v ||| v >>> 16
  add32 v 1

theorem add32_of_lt {a b : Nat} (h : a + b < 2 ^ 32) : add32 a b = a + b := Nat.mod_eq_of_lt h

theorem sub32_of_le {a b : Nat} (ha : a < 2 ^ 32) (h : b ≤ a) : sub32 a b = a - b := by
  unfold sub32
  omega

theorem log2Uint_lt {val : Nat} (h : val < 2 ^ 32) : log2Uint val < 32 := by
  unfold log2Uint
  split
  · decide
  · rename_i h0
    exact (Nat.log2_lt h0).mpr h

theorem log2Uint_two_pow (k : Nat) : log2Uint (2 ^ k) = k := by
  rw [log2Uint, if_neg (Nat.two_pow_pos k).ne', Nat.log2_two_pow]

theorem valpow2_eq {k : Nat} (h : k < 32) : valpow2 k = 2 ^ k := by
  rw [valpow2, Nat.mod_eq_of_lt h]

theorem modpow2_eq (val : Nat) {k : Nat} (h : k < 32) : modpow2 val k = val % 2 ^ k := by
  rw [modpow2, shl1, Nat.mod_eq_of_lt (by omega), Nat.and_two_pow_sub_one_eq_mod]

end LkHv
