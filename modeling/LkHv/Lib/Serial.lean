import Mathlib.Data.List.Basic
import Mathlib.Algebra.Order.Group.Nat

/-!
# Times that wrap

A clock counts on without end and is read modulo 2^w.  Two readings are compared by the sign of their difference.

* `lt`, `gt`               the comparisons of two readings;
* `lt_ofNat`, `gt_ofNat`   they are right about two times less than half the range apart;
* `sub_ofNat`              the way from one reading to a later one;
* `Window`                 some times, any two of them less than half the range apart.
-/

namespace LkHv.Serial
variable {w : Nat}

/-- the first reading is of an earlier time -/
def lt (a b : BitVec w) : Prop := (a - b).toInt < 0

/-- the first reading is of a later time -/
def gt (a b : BitVec w) : Prop := 0 < (a - b).toInt

instance (a b : BitVec w) : Decidable (lt a b) := inferInstanceAs (Decidable ((a - b).toInt < 0))

instance (a b : BitVec w) : Decidable (gt a b) := inferInstanceAs (Decidable (0 < (a - b).toInt))

/-- some times, any two of them less than half the range apart -/
def Window (w : Nat) (l : List Nat) : Prop := ∀ a ∈ l, ∀ b ∈ l, 2 * a < 2 * b + 2 ^ w

instance (l : List Nat) : Decidable (Window w l) :=
  inferInstanceAs (Decidable (∀ a ∈ l, ∀ b ∈ l, 2 * a < 2 * b + 2 ^ w))

theorem Window.mono {l l' : List Nat} (h : Window w l) (hl : ∀ a ∈ l', a ∈ l) : Window w l' :=
  fun a ha b hb => h a (hl a ha) b (hl b hb)

/-- the difference of two readings is the difference of the times -/
theorem sub_toInt {a b : Nat} (h : 2 * a < 2 * b + 2 ^ w) (h' : 2 * b < 2 * a + 2 ^ w) :
    (BitVec.ofNat w a - BitVec.ofNat w b).toInt = (a : Int) - b := by
  rw [BitVec.toInt_sub, BitVec.toInt_ofNat', BitVec.toInt_ofNat', Int.bmod_sub_bmod, Int.sub_bmod_bmod]
  generalize 2 ^ w = n at h h'
  exact Int.bmod_eq_of_le_mul_two (by lia) (by lia)

theorem lt_ofNat {l : List Nat} (hl : Window w l) {a b : Nat} (ha : a ∈ l) (hb : b ∈ l) :
    lt (BitVec.ofNat w a) (BitVec.ofNat w b) ↔ a < b := by
  unfold lt
  rw [sub_toInt (hl a ha b hb) (hl b hb a ha)]
  omega

theorem gt_ofNat {l : List Nat} (hl : Window w l) {a b : Nat} (ha : a ∈ l) (hb : b ∈ l) :
    gt (BitVec.ofNat w a) (BitVec.ofNat w b) ↔ b < a := by
  unfold gt
  rw [sub_toInt (hl a ha b hb) (hl b hb a ha)]
  omega

/-- the way from a reading to a later one -/
theorem sub_ofNat {a b : Nat} (h : a ≤ b) (h' : b < a + 2 ^ w) :
    (BitVec.ofNat w b - BitVec.ofNat w a).toNat = b - a := by
  have hsum : BitVec.ofNat w b = BitVec.ofNat w a + BitVec.ofNat w (b - a) := by
    rw [← BitVec.ofNat_add, Nat.add_sub_cancel' h]
  rw [hsum, BitVec.add_comm, BitVec.add_sub_cancel, BitVec.toNat_ofNat, Nat.mod_eq_of_lt (by omega)]

end LkHv.Serial
