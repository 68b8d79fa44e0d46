import Mathlib.Algebra.Order.Group.Nat
import Mathlib.Data.List.GetD

/-!
# Integers in memory

The bytes of an integer, the least one first, and the integer at a byte of a buffer.
-/

namespace LkHv

/-- the bytes of a `uint16_t` -/
def bytes16 (n : Nat) : List UInt8 := [UInt8.ofNat n, UInt8.ofNat (n / 2 ^ 8)]

/-- the bytes of a `uint32_t` -/
def bytes32 (n : Nat) : List UInt8 :=
  [UInt8.ofNat n, UInt8.ofNat (n / 2 ^ 8), UInt8.ofNat (n / 2 ^ 16), UInt8.ofNat (n / 2 ^ 24)]

/-- the bytes of a `uint64_t` -/
def bytes64 (n : Nat) : List UInt8 := bytes32 n ++ bytes32 (n / 2 ^ 32)

@[simp] theorem bytes16_length (n : Nat) : (bytes16 n).length = 2 := rfl
@[simp] theorem bytes32_length (n : Nat) : (bytes32 n).length = 4 := rfl
@[simp] theorem bytes64_length (n : Nat) : (bytes64 n).length = 8 := rfl

/-- the `uint16_t` at a byte of a buffer -/
def u16 (b : List UInt8) (off : Nat) : Nat := (b.getD off 0).toNat + 2 ^ 8 * (b.getD (off + 1) 0).toNat

/-- the `uint32_t` at a byte of a buffer -/
def u32 (b : List UInt8) (off : Nat) : Nat :=
  (b.getD off 0).toNat + 2 ^ 8 * (b.getD (off + 1) 0).toNat + 2 ^ 16 * (b.getD (off + 2) 0).toNat +
    2 ^ 24 * (b.getD (off + 3) 0).toNat

/-- the `uint64_t` at a byte of a buffer -/
def u64 (b : List UInt8) (off : Nat) : Nat := u32 b off + 2 ^ 32 * u32 b (off + 4)

theorem getD_mid (a m b : List UInt8) {i : Nat} (hi : i < m.length) :
    (a ++ (m ++ b)).getD (a.length + i) 0 = m.getD i 0 := by
  rw [List.getD_append_right _ _ _ _ (Nat.le_add_right _ _), Nat.add_sub_cancel_left]
  exact List.getD_append _ _ _ _ hi

theorem u16_bytes16 {n : Nat} (h : n < 2 ^ 16) (a b : List UInt8) : u16 (a ++ (bytes16 n ++ b)) a.length = n := by
  have h0 := getD_mid a (bytes16 n) b (i := 0) (by simp)
  rw [Nat.add_zero] at h0
  rw [u16, h0, getD_mid a (bytes16 n) b (i := 1) (by simp)]
  show (UInt8.ofNat n).toNat + 2 ^ 8 * (UInt8.ofNat (n / 2 ^ 8)).toNat = n
  simp only [UInt8.toNat_ofNat']
  lia

theorem u32_bytes32 {n : Nat} (h : n < 2 ^ 32) (a b : List UInt8) : u32 (a ++ (bytes32 n ++ b)) a.length = n := by
  have h0 := getD_mid a (bytes32 n) b (i := 0) (by simp)
  rw [Nat.add_zero] at h0
  rw [u32, h0, getD_mid a (bytes32 n) b (i := 1) (by simp), getD_mid a (bytes32 n) b (i := 2) (by simp),
    getD_mid a (bytes32 n) b (i := 3) (by simp)]
  show (UInt8.ofNat n).toNat + 2 ^ 8 * (UInt8.ofNat (n / 2 ^ 8)).toNat +
    2 ^ 16 * (UInt8.ofNat (n / 2 ^ 16)).toNat + 2 ^ 24 * (UInt8.ofNat (n / 2 ^ 24)).toNat = n
  simp only [UInt8.toNat_ofNat']
  omega

/-- the bytes of an integer depend on its low bits only -/
theorem bytes32_mod (n : Nat) : bytes32 (n % 2 ^ 32) = bytes32 n := by
  have h : ∀ k ≤ 24, UInt8.ofNat (n % 2 ^ 32 / 2 ^ k) = UInt8.ofNat (n / 2 ^ k) := by
    intro k hk
    apply UInt8.toNat_inj.mp
    rw [UInt8.toNat_ofNat', UInt8.toNat_ofNat', ← Nat.mod_mul_right_div_self, ← Nat.mod_mul_right_div_self,
      Nat.mod_mod_of_dvd]
    rw [← Nat.pow_add]
    exact Nat.pow_dvd_pow 2 (by omega)
  have h0 := h 0 (by decide)
  rw [Nat.pow_zero, Nat.div_one, Nat.div_one] at h0
  unfold bytes32
  rw [h0, h 8 (by decide), h 16 (by decide), h 24 (by decide)]

theorem u64_bytes64 {n : Nat} (h : n < 2 ^ 64) (a b : List UInt8) : u64 (a ++ (bytes64 n ++ b)) a.length = n := by
  have hlo : u32 (a ++ (bytes64 n ++ b)) a.length = n % 2 ^ 32 := by
    rw [bytes64, ← bytes32_mod n, List.append_assoc]
    exact u32_bytes32 (Nat.mod_lt _ (by decide)) a _
  have hhi : u32 (a ++ (bytes64 n ++ b)) (a.length + 4) = n / 2 ^ 32 := by
    have e := u32_bytes32 (show n / 2 ^ 32 < 2 ^ 32 by lia) (a ++ bytes32 n) b
    rw [List.length_append, List.append_assoc] at e
    rw [bytes64, List.append_assoc]
    exact e
  rw [u64, hlo, hhi]
  lia

theorem u32_lt (b : List UInt8) (off : Nat) : u32 b off < 2 ^ 32 := by
  have h : ∀ i, (b.getD i 0).toNat < 256 := fun i => (b.getD i 0).toNat_lt
  have h0 := h off
  have h1 := h (off + 1)
  have h2 := h (off + 2)
  have h3 := h (off + 3)
  unfold u32
  lia

theorem u64_lt (b : List UInt8) (off : Nat) : u64 b off < 2 ^ 64 := by
  have h0 := u32_lt b off
  have h1 := u32_lt b (off + 4)
  unfold u64
  omega

end LkHv
