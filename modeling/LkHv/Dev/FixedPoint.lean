import LkHv.Lib.Scaled
import Mathlib.Data.UInt

/-!
# The fixed-point arithmetic of the timers

A number is three words: its whole part, the 32 bits after the point and the 32 bits after those.

* `fp3264Div3232`   the quotient of two words;
* `u64MulU32Fp3264`, `u32MulU64Fp3264`, `u64MulU64Fp3264`   the products of a number with 32 or 64 bits, with a result
  of 64, 32 or 64 bits;
* `fp3264Div3232_value`   the quotient is `factor 64`;
* `u64MulU32_toNat`, `u32MulU64_toNat`, `u64MulU64_toNat`   the products are `product 32 32`, to the width of the
  result, for any number.
-/

namespace LkHv
namespace FixedPoint
open Scaled

/-- `struct fp_32_64` -/
structure Fp3264 where
  /-- unshifted value -/
  l0 : UInt32
  /-- value shifted left 32 bits -/
  l32 : UInt32
  /-- value shifted left 64 bits -/
  l64 : UInt32

/-- the number, shifted left 64 bits -/
def Fp3264.value (b : Fp3264) : Nat := b.l0.toNat * 2 ^ 64 + b.l32.toNat * 2 ^ 32 + b.l64.toNat

def fp3264Div3232 (dividend divisor : UInt32) : Fp3264 :=
  let tmp := (dividend.toUInt64 <<< 32) / divisor.toUInt64
  let rem := ((dividend.toUInt64 <<< 32) % divisor.toUInt64).toUInt32
  ⟨(tmp >>> 32).toUInt32, tmp.toUInt32, ((rem.toUInt64 <<< 32) / divisor.toUInt64).toUInt32⟩

/-- (the shifts that the source passes on are for the debug output) -/
def mulU32U32 (a b : UInt32) : UInt64 := a.toUInt64 * b.toUInt64

def u64MulU32Fp3264 (a : UInt32) (b : Fp3264) : UInt64 :=
  let res0 := mulU32U32 a b.l0
  let tmp := mulU32U32 a b.l32
  let res0 := res0 + (tmp >>> 32)
  let resL32 := tmp.toUInt32.toUInt64
  let resL32 := resL32 + (mulU32U32 a b.l64 >>> 32)
  let res0 := res0 + (resL32 >>> 32)
  let resL32_32 := resL32.toUInt32
  res0 + (resL32_32 >>> 31).toUInt64

def u32MulU64Fp3264 (a : UInt64) (b : Fp3264) : UInt32 :=
  let ar32 := (a >>> 32).toUInt32
  let a0 := a.toUInt32
  -- the product of `ar32` and `l0` does not reach the result
  let resL32 := mulU32U32 a0 b.l0 <<< 32
  let resL32 := resL32 + (mulU32U32 ar32 b.l32 <<< 32)
  let resL32 := resL32 + mulU32U32 a0 b.l32
  let resL32 := resL32 + mulU32U32 ar32 b.l64
  let resL32 := resL32 + (mulU32U32 a0 b.l64 >>> 32)
  ((resL32 >>> 32) + (resL32.toUInt32 >>> 31).toUInt64).toUInt32

def u64MulU64Fp3264 (a : UInt64) (b : Fp3264) : UInt64 :=
  let ar32 := (a >>> 32).toUInt32
  let a0 := a.toUInt32
  let res0 := mulU32U32 ar32 b.l0 <<< 32
  let res0 := res0 + mulU32U32 a0 b.l0
  let res0 := res0 + mulU32U32 ar32 b.l32
  let tmp := mulU32U32 a0 b.l32
  let res0 := res0 + (tmp >>> 32)
  let resL32 := tmp.toUInt32.toUInt64
  let tmp := mulU32U32 ar32 b.l64
  let res0 := res0 + (tmp >>> 32)
  let resL32 := resL32 + tmp.toUInt32.toUInt64
  let resL32 := resL32 + (mulU32U32 a0 b.l64 >>> 32)
  let res0 := res0 + (resL32 >>> 32)
  let resL32_32 := resL32.toUInt32
  res0 + (resL32_32 >>> 31).toUInt64

/-! ## words -/

theorem toNat_mulU32U32 (a b : UInt32) : (mulU32U32 a b).toNat = a.toNat * b.toNat := by
  have hlt : a.toNat * b.toNat < 2 ^ 64 := by
    calc a.toNat * b.toNat < 2 ^ 32 * 2 ^ 32 := Nat.mul_lt_mul'' a.toNat_lt b.toNat_lt
      _ = 2 ^ 64 := by decide
  rw [mulU32U32, UInt64.toNat_mul, UInt32.toNat_toUInt64, UInt32.toNat_toUInt64]
  exact Nat.mod_eq_of_lt hlt

theorem toNat_shl32 (x : UInt64) : (x <<< 32).toNat = x.toNat * 2 ^ 32 % 2 ^ 64 := by
  rw [UInt64.toNat_shiftLeft, Nat.shiftLeft_eq]
  rfl

theorem toNat_shr32 (x : UInt64) : (x >>> 32).toNat = x.toNat / 2 ^ 32 := by
  rw [UInt64.toNat_shiftRight, Nat.shiftRight_eq_div_pow]
  rfl

theorem toNat_shr31 (x : UInt32) : (x >>> 31).toNat = x.toNat / 2 ^ 31 := by
  rw [UInt32.toNat_shiftRight, Nat.shiftRight_eq_div_pow]
  rfl

theorem toNat_low (x : UInt64) : x.toUInt32.toNat = x.toNat % 2 ^ 32 := UInt64.toNat_toUInt32 x

/-- the whole part of `a * b / 2 ^ 32`, limb by limb -/
theorem mul_value_div (a : Nat) (b : Fp3264) :
    a * b.value / 2 ^ 32 = a * b.l0.toNat * 2 ^ 32 + a * b.l32.toNat + a * b.l64.toNat / 2 ^ 32 := by
  have h : a * b.value = 2 ^ 32 * (a * b.l0.toNat * 2 ^ 32 + a * b.l32.toNat) + a * b.l64.toNat := by
    rw [Fp3264.value]
    ring
  rw [h, Nat.mul_add_div (by decide)]

/-- the whole part `w` and the 32 bits below it, with their carry -/
theorem product_limbs {a b w l : Nat} (h : a * b / 2 ^ 32 = w * 2 ^ 32 + l) :
    product 32 32 a b = w + l / 2 ^ 32 + l % 2 ^ 32 / 2 ^ 31 := by
  rw [product_split _ _ _ (by decide), h, Nat.mul_add_mod', Nat.mul_comm w, Nat.mul_add_div (by decide)]

/-! ## the products -/

/-- **`u64_mul_u32_fp32_64`** is the rounded product. -/
theorem u64MulU32_toNat (a : UInt32) (b : Fp3264) :
    (u64MulU32Fp3264 a b).toNat = product 32 32 a.toNat b.value % 2 ^ 64 := by
  have h : a.toNat * b.value / 2 ^ 32 = (a.toNat * b.l0.toNat + a.toNat * b.l32.toNat / 2 ^ 32) * 2 ^ 32 +
      (a.toNat * b.l32.toNat % 2 ^ 32 + a.toNat * b.l64.toNat / 2 ^ 32) := by
    rw [mul_value_div]
    omega
  have hlow : a.toNat * b.l32.toNat % 2 ^ 32 + a.toNat * b.l64.toNat / 2 ^ 32 < 2 ^ 64 := by
    have hz := (mulU32U32 a b.l64).toNat_lt
    rw [toNat_mulU32U32] at hz
    omega
  rw [product_limbs h]
  simp only [u64MulU32Fp3264, UInt64.toNat_add, toNat_shr32, UInt32.toNat_toUInt64, toNat_low, toNat_shr31,
    toNat_mulU32U32, Nat.mod_eq_of_lt hlow, Nat.mod_add_mod]

/-- the limbs of 64 bits -/
theorem limbs (a : UInt64) : a.toNat = (a >>> 32).toUInt32.toNat * 2 ^ 32 + a.toUInt32.toNat := by
  have h := a.toNat_lt
  rw [toNat_low, toNat_low, toNat_shr32]
  lia

theorem limbs_mul_value_div (r l : Nat) (b : Fp3264) : (r * 2 ^ 32 + l) * b.value / 2 ^ 32 =
      (r * b.l0.toNat * 2 ^ 32 + l * b.l0.toNat + r * b.l32.toNat) * 2 ^ 32 + l * b.l32.toNat + r * b.l64.toNat +
        l * b.l64.toNat / 2 ^ 32 := by
  have h : (r * 2 ^ 32 + l) * b.l64.toNat / 2 ^ 32 = r * b.l64.toNat + l * b.l64.toNat / 2 ^ 32 := by
    rw [Nat.add_mul, Nat.mul_right_comm, Nat.mul_comm _ (2 ^ 32), Nat.mul_add_div (by decide)]
  rw [mul_value_div, h]
  ring

/-- the rounding of a sum that was kept to 64 bits, to 32 -/
theorem round_mod (s : Nat) : (s % 2 ^ 64 / 2 ^ 32 + s % 2 ^ 64 % 2 ^ 32 / 2 ^ 31) % 2 ^ 64 % 2 ^ 32 =
      (s / 2 ^ 32 + s % 2 ^ 32 / 2 ^ 31) % 2 ^ 32 := by
  omega

/-- the product of the upper limbs, `x`, is above 64 bits -/
theorem sum_mod (x y z u v w : Nat) : (y * 2 ^ 32 + z * 2 ^ 32 % 2 ^ 64 + u + v + w) % 2 ^ 64 =
      ((x * 2 ^ 32 + y + z) * 2 ^ 32 + u + v + w) % 2 ^ 64 := by
  lia

/-- **`u32_mul_u64_fp32_64`** is the rounded product. -/
theorem u32MulU64_toNat (a : UInt64) (b : Fp3264) :
    (u32MulU64Fp3264 a b).toNat = product 32 32 a.toNat b.value % 2 ^ 32 := by
  rw [product_split _ _ _ (by decide), limbs a, limbs_mul_value_div, ← round_mod, ← sum_mod]
  simp only [u32MulU64Fp3264, UInt64.toNat_add, toNat_shr32, toNat_shl32, UInt32.toNat_toUInt64, toNat_low,
    toNat_shr31, toNat_mulU32U32, Nat.mod_add_mod]

/-- **`u64_mul_u64_fp32_64`** is the rounded product. -/
theorem u64MulU64_toNat (a : UInt64) (b : Fp3264) :
    (u64MulU64Fp3264 a b).toNat = product 32 32 a.toNat b.value % 2 ^ 64 := by
  have hz := (mulU32U32 a.toUInt32 b.l64).toNat_lt
  rw [limbs a]
  unfold u64MulU64Fp3264
  dsimp only
  generalize (a >>> 32).toUInt32 = r
  generalize a.toUInt32 = l at hz ⊢
  simp only [UInt64.toNat_add, toNat_shr32, toNat_shl32, UInt32.toNat_toUInt64, toNat_low, toNat_shr31,
    toNat_mulU32U32] at hz ⊢
  generalize r.toNat = r
  generalize l.toNat = l at hz ⊢
  have h : (r * 2 ^ 32 + l) * b.value / 2 ^ 32 =
      (r * b.l0.toNat * 2 ^ 32 + l * b.l0.toNat + r * b.l32.toNat + l * b.l32.toNat / 2 ^ 32 +
        r * b.l64.toNat / 2 ^ 32) * 2 ^ 32 +
      (l * b.l32.toNat % 2 ^ 32 + r * b.l64.toNat % 2 ^ 32 + l * b.l64.toNat / 2 ^ 32) := by
    rw [limbs_mul_value_div]
    omega
  have hlow : l * b.l32.toNat % 2 ^ 32 + r * b.l64.toNat % 2 ^ 32 + l * b.l64.toNat / 2 ^ 32 < 2 ^ 64 := by
    omega
  rw [product_limbs h]
  simp only [Nat.mod_add_mod, Nat.mod_eq_of_lt hlow]

/-! ## the quotient -/

/-- **`fp_32_64_div_32_32`** is the quotient, rounded down at its last bit. -/
theorem fp3264Div3232_value (dividend : UInt32) {divisor : UInt32} (h : divisor ≠ 0) :
    (fp3264Div3232 dividend divisor).value = factor 64 dividend.toNat divisor.toNat := by
  have hpos : 0 < divisor.toNat := by
    apply Nat.pos_of_ne_zero
    intro h0
    exact h (UInt32.toNat_inj.mp h0)
  have hlt := dividend.toNat_lt
  have hshift : dividend.toNat * 2 ^ 32 % 2 ^ 64 = dividend.toNat * 2 ^ 32 := Nat.mod_eq_of_lt (by omega)
  have hrem := Nat.mod_lt (dividend.toNat * 2 ^ 32) hpos
  have hdlt := divisor.toNat_lt
  have hl64 : dividend.toNat * 2 ^ 32 % divisor.toNat * 2 ^ 32 / divisor.toNat < 2 ^ 32 := by
    rw [Nat.div_lt_iff_lt_mul hpos, Nat.mul_comm (2 ^ 32)]
    exact Nat.mul_lt_mul_of_pos_right hrem (by decide)
  have hq : dividend.toNat * 2 ^ 32 / divisor.toNat < 2 ^ 64 := (Nat.div_le_self _ _).trans_lt (by omega)
  simp only [fp3264Div3232, Fp3264.value, toNat_low, toNat_shr32, toNat_shl32, UInt64.toNat_div, UInt64.toNat_mod,
    UInt32.toNat_toUInt64]
  rw [hshift, Nat.mod_eq_of_lt (b := 2 ^ 32) (hrem.trans hdlt), Nat.mod_eq_of_lt (b := 2 ^ 64) (by omega),
    Nat.mod_eq_of_lt (b := 2 ^ 32) hl64, Nat.mod_eq_of_lt (b := 2 ^ 32) (by omega)]
  have hsplit : 2 ^ 64 * dividend.toNat = divisor.toNat * (dividend.toNat * 2 ^ 32 / divisor.toNat * 2 ^ 32) +
      dividend.toNat * 2 ^ 32 % divisor.toNat * 2 ^ 32 := by
    calc 2 ^ 64 * dividend.toNat = dividend.toNat * 2 ^ 32 * 2 ^ 32 := by ring
      _ = (divisor.toNat * (dividend.toNat * 2 ^ 32 / divisor.toNat) + dividend.toNat * 2 ^ 32 % divisor.toNat) *
          2 ^ 32 := by rw [Nat.div_add_mod]
      _ = _ := by ring
  rw [factor, hsplit, Nat.mul_add_div hpos]
  omega

end FixedPoint
end LkHv
