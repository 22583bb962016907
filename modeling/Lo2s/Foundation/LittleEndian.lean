import Mathlib.Algebra.Group.Nat.Defs
import Mathlib.Tactic.Common

/-!
# Numbers in memory

Numbers as sequences of bytes, the least significant one first.
-/

namespace Foundation

/-- The `count` lowest bytes of a number. -/
def littleEndian : Nat → Nat → List UInt8
  | 0, _ => []
  | count + 1, n => UInt8.ofNat n :: littleEndian count (n / 256)

/-- The number a sequence of bytes stands for. -/
def ofLittleEndian : List UInt8 → Nat
  | [] => 0
  | byte :: bytes => byte.toNat + 256 * ofLittleEndian bytes

@[simp] theorem length_littleEndian (count n : Nat) :
    (littleEndian count n).length = count := by
  induction count generalizing n with
  | zero => rfl
  | succ count induction => simp [littleEndian, induction]

theorem ofLittleEndian_lt (bytes : List UInt8) :
    ofLittleEndian bytes < 256 ^ bytes.length := by
  induction bytes with
  | nil => exact Nat.one_pos
  | cons byte bytes induction =>
      have low := byte.toNat_lt
      rw [ofLittleEndian, List.length_cons, Nat.pow_succ]
      omega

theorem ofLittleEndian_littleEndian {count n : Nat} (fits : n < 256 ^ count) :
    ofLittleEndian (littleEndian count n) = n := by
  induction count generalizing n with
  | zero =>
      rw [Nat.pow_zero] at fits
      simp only [littleEndian, ofLittleEndian]
      omega
  | succ count induction =>
      have rest : n / 256 < 256 ^ count := by
        rw [Nat.pow_succ] at fits
        exact Nat.div_lt_of_lt_mul (Nat.mul_comm _ _ ▸ fits)
      rw [littleEndian, ofLittleEndian, induction rest, UInt8.toNat_ofNat']
      omega

end Foundation
