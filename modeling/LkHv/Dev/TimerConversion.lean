import LkHv.Dev.FixedPoint

/-!
# The conversions between the counter of the timer and time

* `armGenericTimerInitConversionFactors`   the factors, for a frequency of the counter;
* `lkTimeToCntpct`, `cntpctToLkTime`, `cntpctToLkBigtime`   the conversions;
* `Converts`   a conversion is near to the exact ratio and monotone, as long as it does not wrap;
* `time_conversion`   the products are exact, and the conversions convert.
-/

namespace LkHv
namespace TimerConversion
open FixedPoint Scaled

/-- the conversion factors of the driver -/
structure Factors where
  cntpctPerMs : Fp3264
  msPerCntpct : Fp3264
  usPerCntpct : Fp3264

def armGenericTimerInitConversionFactors (cntfrq : UInt32) : Factors where
  cntpctPerMs := fp3264Div3232 cntfrq 1000
  msPerCntpct := fp3264Div3232 1000 cntfrq
  usPerCntpct := fp3264Div3232 (1000 * 1000) cntfrq

def lkTimeToCntpct (f : Factors) (lkTime : UInt32) : UInt64 := u64MulU32Fp3264 lkTime f.cntpctPerMs

def cntpctToLkTime (f : Factors) (cntpct : UInt64) : UInt32 := u32MulU64Fp3264 cntpct f.msPerCntpct

def cntpctToLkBigtime (f : Factors) (cntpct : UInt64) : UInt64 := u64MulU64Fp3264 cntpct f.usPerCntpct

/-! ## what a conversion is -/

/-- `y` and `a * p / q` are less than two units apart -/
def Near (y a p q : Nat) : Prop := y * q < a * p + 2 * q ∧ a * p < y * q + 2 * q

/-- the rounded product of `a` with `p / q` has `w` bits -/
def NoWrap (w p q a : Nat) : Prop := product 32 32 a (factor 64 p q) < 2 ^ w

/-- `conv` multiplies by `p / q`, into `w` bits -/
structure Converts {α : Type} (val conv : α → Nat) (w p q : Nat) : Prop where
  near : ∀ a, NoWrap w p q (val a) → Near (conv a) (val a) p q
  mono : ∀ a b, val a ≤ val b → NoWrap w p q (val b) → conv a ≤ conv b

theorem product_near {a p q : Nat} (hq : 0 < q) (ha : a ≤ 2 ^ 64) : Near (product 32 32 a (factor 64 p q)) a p q := by
  have h1 := product_le (d := 32) (e := 32) (p := p) (q := q) (a := a) (by decide)
  have h2 := lt_product (d := 32) (e := 32) (p := p) (by decide) hq ha
  rw [show 32 + 32 = 64 from rfl] at h1 h2
  constructor <;> lia

/-- a conversion that is the rounded product, to `w` bits -/
theorem Converts.of_product {α : Type} {val conv : α → Nat} {w p q : Nat} (hq : 0 < q) (hval : ∀ a, val a ≤ 2 ^ 64)
    (h : ∀ a, conv a = product 32 32 (val a) (factor 64 p q) % 2 ^ w) : Converts val conv w p q where
  near := by
    intro a hn
    rw [h, Nat.mod_eq_of_lt hn]
    exact product_near hq (hval a)
  mono := by
    intro a b hab hn
    have hle := product_mono 32 32 hab (Nat.le_refl (factor 64 p q))
    have hna : NoWrap w p q (val a) := hle.trans_lt hn
    rw [h, h, Nat.mod_eq_of_lt hn, Nat.mod_eq_of_lt hna]
    exact hle

/-- a result that fits, with its rounding, does not wrap -/
theorem noWrap_of_lt {w p q a : Nat} (h : 2 * (a * p) + q < 2 * (2 ^ w * q)) : NoWrap w p q a := by
  have h1 := product_le (d := 32) (e := 32) (p := p) (q := q) (a := a) (by decide)
  have h2 : product 32 32 a (factor 64 p q) * q < 2 ^ w * q := by
    rw [show 32 + 32 = 64 from rfl] at h1
    omega
  exact Nat.lt_of_mul_lt_mul_right h2

theorem toNat_pos {x : UInt32} (h : x ≠ 0) : 0 < x.toNat := by
  apply Nat.pos_of_ne_zero
  intro h0
  exact h (UInt32.toNat_inj.mp h0)

/-- **The products are exact** to their widths, for every ratio, and **the conversions** are near and monotone, for
every frequency. -/
theorem time_conversion (dividend : UInt32) {divisor cntfrq : UInt32} (hdiv : divisor ≠ 0) (hfrq : cntfrq ≠ 0) :
    (∀ a, (u64MulU32Fp3264 a (fp3264Div3232 dividend divisor)).toNat =
      (a.toNat * (2 ^ 64 * dividend.toNat / divisor.toNat) / 2 ^ 32 + 2 ^ 31) / 2 ^ 32 % 2 ^ 64) ∧
    (∀ a, (u32MulU64Fp3264 a (fp3264Div3232 dividend divisor)).toNat =
      (a.toNat * (2 ^ 64 * dividend.toNat / divisor.toNat) / 2 ^ 32 + 2 ^ 31) / 2 ^ 32 % 2 ^ 32) ∧
    (∀ a, (u64MulU64Fp3264 a (fp3264Div3232 dividend divisor)).toNat =
      (a.toNat * (2 ^ 64 * dividend.toNat / divisor.toNat) / 2 ^ 32 + 2 ^ 31) / 2 ^ 32 % 2 ^ 64) ∧
    Converts UInt32.toNat (fun t => (lkTimeToCntpct (armGenericTimerInitConversionFactors cntfrq) t).toNat)
      64 cntfrq.toNat 1000 ∧
    Converts UInt64.toNat (fun c => (cntpctToLkTime (armGenericTimerInitConversionFactors cntfrq) c).toNat)
      32 1000 cntfrq.toNat ∧
    Converts UInt64.toNat (fun c => (cntpctToLkBigtime (armGenericTimerInitConversionFactors cntfrq) c).toNat)
      64 (1000 * 1000) cntfrq.toNat := by
  have hb := fp3264Div3232_value dividend hdiv
  have h64 : ∀ a : UInt64, a.toNat ≤ 2 ^ 64 := fun a => a.toNat_lt.le
  refine ⟨fun a => ?_, fun a => ?_, fun a => ?_, ?_, ?_, ?_⟩
  · rw [u64MulU32_toNat, hb]
    rfl
  · rw [u32MulU64_toNat, hb]
    rfl
  · rw [u64MulU64_toNat, hb]
    rfl
  · apply Converts.of_product (by decide) fun t => t.toNat_lt.le.trans (by decide)
    intro t
    rw [lkTimeToCntpct, armGenericTimerInitConversionFactors, u64MulU32_toNat, fp3264Div3232_value _ (by decide)]
    rfl
  · apply Converts.of_product (toNat_pos hfrq) h64
    intro c
    rw [cntpctToLkTime, armGenericTimerInitConversionFactors, u32MulU64_toNat, fp3264Div3232_value _ hfrq]
    rfl
  · apply Converts.of_product (toNat_pos hfrq) h64
    intro c
    rw [cntpctToLkBigtime, armGenericTimerInitConversionFactors, u64MulU64_toNat, fp3264Div3232_value _ hfrq]
    rfl

/-- a counter of 62.5 MHz -/
theorem time_conversion_62500000 :
    (u32MulU64Fp3264 125000 (fp3264Div3232 1000 62500000)).toNat =
      (125000 * (2 ^ 64 * 1000 / 62500000) / 2 ^ 32 + 2 ^ 31) / 2 ^ 32 % 2 ^ 32 ∧
    Near (cntpctToLkTime (armGenericTimerInitConversionFactors 62500000) 125000).toNat 125000 1000 62500000 := by
  obtain ⟨-, h1, -, -, h2, -⟩ := @time_conversion 1000 62500000 62500000 (by decide) (by decide)
  exact ⟨h1 125000, h2.near 125000 (noWrap_of_lt (by decide))⟩

end TimerConversion
end LkHv
