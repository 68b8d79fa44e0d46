import Mathlib.Tactic.Linarith
import Mathlib.Tactic.Ring

/-!
# Multiplication by a fraction in fixed point

A fraction `p / q` is kept as `factor w p q`, the whole part of `2 ^ w * p / q`.  A product with it drops `d` bits
and then rounds the rest, `e` bits, to the nearest number.

* `factor_le`, `lt_factor`   the factor is the fraction, rounded down;
* `product_mono`    the product is monotone in both arguments;
* `product_le`, `lt_product`   with `w = d + e` the product is near to `a * p / q`, for `a` of `w` bits;
* `product_split`   the whole part and the carry of the rounding.
-/

namespace LkHv
namespace Scaled

/-- `p / q` with `w` bits after the point -/
def factor (w p q : Nat) : Nat := 2 ^ w * p / q

/-- `a * b`, without its last `d` bits and rounded at bit `e` of the others -/
def product (d e a b : Nat) : Nat := (a * b / 2 ^ d + 2 ^ e / 2) / 2 ^ e

theorem factor_le (w p q : Nat) : factor w p q * q ≤ 2 ^ w * p := Nat.div_mul_le_self _ _

theorem lt_factor (w p : Nat) {q : Nat} (hq : 0 < q) : 2 ^ w * p < (factor w p q + 1) * q := by
  rw [factor, Nat.mul_comm _ q]
  exact Nat.lt_mul_div_succ _ hq

theorem product_mono {a a' b b' : Nat} (d e : Nat) (ha : a ≤ a') (hb : b ≤ b') :
    product d e a b ≤ product d e a' b' := by
  unfold product
  apply Nat.div_le_div_right
  apply Nat.add_le_add_right
  exact Nat.div_le_div_right (Nat.mul_le_mul ha hb)

/-- rounding is the whole part and the first bit after it -/
theorem product_split (d a b : Nat) {e : Nat} (he : 0 < e) :
    product d e a b = a * b / 2 ^ d / 2 ^ e + a * b / 2 ^ d % 2 ^ e / 2 ^ (e - 1) := by
  obtain ⟨e, rfl⟩ : ∃ k, e = k + 1 := ⟨e - 1, by lia⟩
  have hpos := Nat.two_pow_pos e
  rw [product, Nat.add_sub_cancel, Nat.pow_succ, Nat.mul_div_cancel _ Nat.two_pos]
  generalize a * b / 2 ^ d = s
  generalize 2 ^ e = h at hpos
  have h1 := Nat.div_add_mod s (h * 2)
  have h2 := Nat.mod_lt s (Nat.mul_pos hpos Nat.two_pos)
  have h3 : (s + h) / (h * 2) = s / (h * 2) + (s % (h * 2) + h) / (h * 2) := by
    conv_lhs => rw [← h1, Nat.add_assoc, Nat.mul_add_div (by lia)]
  rw [h3]
  generalize s % (h * 2) = r at h2 ⊢
  generalize s / (h * 2) = t
  by_cases hr : r < h
  · rw [Nat.div_eq_of_lt hr, Nat.div_eq_of_lt (by lia)]
  · rw [Nat.div_eq_of_lt_le (k := 1) (by lia) (by lia), Nat.div_eq_of_lt_le (k := 1) (by lia) (by lia)]

variable {d e p q a : Nat}

/-- **The product is at most half a unit** above the exact value. -/
theorem product_le (he : 0 < e) : 2 * (product d e a (factor (d + e) p q) * q) ≤ 2 * (a * p) + q := by
  obtain ⟨e, rfl⟩ : ∃ k, e = k + 1 := ⟨e - 1, by omega⟩
  have hw : 0 < 2 ^ d * 2 ^ e := Nat.mul_pos (Nat.two_pow_pos d) (Nat.two_pow_pos e)
  have hf := factor_le (d + (e + 1)) p q
  rw [product]
  generalize factor (d + (e + 1)) p q = b at *
  rw [Nat.pow_add, Nat.pow_succ] at hf
  rw [Nat.pow_succ, Nat.mul_div_cancel _ Nat.two_pos]
  have h1 := Nat.div_mul_le_self (a * b) (2 ^ d)
  have h2 := Nat.div_mul_le_self (a * b / 2 ^ d + 2 ^ e) (2 ^ e * 2)
  generalize (a * b / 2 ^ d + 2 ^ e) / (2 ^ e * 2) = y at *
  generalize a * b / 2 ^ d = s at *
  apply Nat.le_of_mul_le_mul_left _ hw
  calc 2 ^ d * 2 ^ e * (2 * (y * q)) = 2 ^ d * q * (y * (2 ^ e * 2)) := by ring
    _ ≤ 2 ^ d * q * (s + 2 ^ e) := Nat.mul_le_mul_left _ h2
    _ = q * (s * 2 ^ d) + 2 ^ d * 2 ^ e * q := by ring
    _ ≤ q * (a * b) + 2 ^ d * 2 ^ e * q := Nat.add_le_add_right (Nat.mul_le_mul_left _ h1) _
    _ = a * (b * q) + 2 ^ d * 2 ^ e * q := by ring
    _ ≤ a * (2 ^ d * (2 ^ e * 2) * p) + 2 ^ d * 2 ^ e * q := Nat.add_le_add_right (Nat.mul_le_mul_left _ hf) _
    _ = 2 ^ d * 2 ^ e * (2 * (a * p) + q) := by ring

/-- **The product is less than one and a half units** below the exact value. -/
theorem lt_product (he : 0 < e) (hq : 0 < q) (ha : a ≤ 2 ^ (d + e)) :
    2 * (a * p) < 2 * (product d e a (factor (d + e) p q) * q) + 3 * q := by
  obtain ⟨e, rfl⟩ : ∃ k, e = k + 1 := ⟨e - 1, by lia⟩
  have hd := Nat.two_pow_pos d
  have hw : 0 < 2 ^ d * 2 ^ e := Nat.mul_pos hd (Nat.two_pow_pos e)
  have hf := (lt_factor (d + (e + 1)) p hq).le
  rw [product]
  generalize factor (d + (e + 1)) p q = b at *
  rw [Nat.pow_add, Nat.pow_succ] at hf ha
  rw [Nat.pow_succ, Nat.mul_div_cancel _ Nat.two_pos]
  have h1 := Nat.lt_div_mul_add (a := a * b) hd
  have h2 := Nat.lt_div_mul_add (a := a * b / 2 ^ d + 2 ^ e) (Nat.mul_pos (Nat.two_pow_pos e) Nat.two_pos)
  generalize (a * b / 2 ^ d + 2 ^ e) / (2 ^ e * 2) = y at *
  generalize a * b / 2 ^ d = s at *
  have h3 : s + 1 ≤ y * (2 ^ e * 2) + 2 ^ e := by lia
  have h4 : a * b < (y * (2 ^ e * 2) + 2 ^ e) * 2 ^ d :=
    calc a * b < (s + 1) * 2 ^ d := by rw [Nat.succ_mul]; exact h1
      _ ≤ _ := Nat.mul_le_mul_right _ h3
  apply Nat.lt_of_mul_lt_mul_left (a := 2 ^ d * 2 ^ e)
  calc 2 ^ d * 2 ^ e * (2 * (a * p)) = a * (2 ^ d * (2 ^ e * 2) * p) := by ring
    _ ≤ a * ((b + 1) * q) := Nat.mul_le_mul_left _ hf
    _ = a * b * q + a * q := by ring
    _ < (y * (2 ^ e * 2) + 2 ^ e) * 2 ^ d * q + a * q := Nat.add_lt_add_right (Nat.mul_lt_mul_of_pos_right h4 hq) _
    _ ≤ (y * (2 ^ e * 2) + 2 ^ e) * 2 ^ d * q + 2 ^ d * (2 ^ e * 2) * q :=
        Nat.add_le_add_left (Nat.mul_le_mul_right _ ha) _
    _ = 2 ^ d * 2 ^ e * (2 * (y * q) + 3 * q) := by ring

end Scaled
end LkHv
