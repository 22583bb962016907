import Mathlib.Data.Nat.Bitwise
import Mathlib.Tactic.NormNum

/-!
# Bits of a 64-bit word

What the operations on words do to the bit at each position.
-/

namespace Foundation

def bitAt (word : UInt64) (position : Nat) : Bool := word.toNat.testBit position

theorem bitAt_or (left right : UInt64) (position : Nat) :
    bitAt (left ||| right) position =
      (bitAt left position || bitAt right position) := by
  rw [bitAt, UInt64.toNat_or, Nat.testBit_or]
  rfl

theorem bitAt_and (left right : UInt64) (position : Nat) :
    bitAt (left &&& right) position =
      (bitAt left position && bitAt right position) := by
  rw [bitAt, UInt64.toNat_and, Nat.testBit_and]
  rfl

@[simp] theorem bitAt_zero (position : Nat) : bitAt 0 position = false :=
  Nat.zero_testBit position

theorem bitAt_one (position : Nat) :
    bitAt 1 position = decide (position = 0) := by
  rw [bitAt, UInt64.toNat_one]
  cases position with
  | zero => rfl
  | succ position => simp [Nat.testBit_succ]

theorem bitAt_of_le (word : UInt64) {position : Nat} (beyond : 64 ≤ position) :
    bitAt word position = false := by
  refine Nat.testBit_lt_two_pow (word.toNat_lt.trans_le ?_)
  exact Nat.pow_le_pow_right (by decide) beyond

theorem eq_of_bitAt {left right : UInt64}
    (same : ∀ position, bitAt left position = bitAt right position) :
    left = right :=
  UInt64.toNat_inj.mp (Nat.eq_of_testBit_eq same)

theorem eq_zero_iff (word : UInt64) :
    word = 0 ↔ ∀ position, bitAt word position = false :=
  ⟨fun zero position => by rw [zero, bitAt_zero],
    fun none => eq_of_bitAt fun position => by rw [none, bitAt_zero]⟩

theorem toNat_places {places : Nat} (inside : places < 64) :
    (UInt64.ofNat places).toNat % 64 = places := by
  rw [UInt64.toNat_ofNat']
  omega

theorem bitAt_shiftLeft (word : UInt64) {places : Nat} (inside : places < 64)
    (position : Nat) :
    bitAt (word <<< UInt64.ofNat places) position =
      (decide (position < 64) && decide (places ≤ position) &&
        bitAt word (position - places)) := by
  rw [bitAt, UInt64.toNat_shiftLeft, toNat_places inside,
    Nat.testBit_mod_two_pow, Nat.testBit_shiftLeft, Bool.and_assoc]
  rfl

theorem bitAt_shiftRight (word : UInt64) {places : Nat} (inside : places < 64)
    (position : Nat) :
    bitAt (word >>> UInt64.ofNat places) position =
      bitAt word (places + position) := by
  rw [bitAt, UInt64.toNat_shiftRight, toNat_places inside,
    Nat.testBit_shiftRight]
  rfl

theorem bitAt_lowest {len : Nat} (inside : len < 64) (position : Nat) :
    bitAt ((1 <<< UInt64.ofNat len) - 1) position =
      decide (position < len) := by
  have power : 2 ^ len < 2 ^ 64 := Nat.pow_lt_pow_right (by decide) inside
  have positive : 0 < 2 ^ len := Nat.two_pow_pos len
  have shifted : ((1 : UInt64) <<< UInt64.ofNat len).toNat = 2 ^ len := by
    rw [UInt64.toNat_shiftLeft, toNat_places inside, UInt64.toNat_one,
      Nat.one_shiftLeft, Nat.mod_eq_of_lt power]
  have value : (((1 : UInt64) <<< UInt64.ofNat len) - 1).toNat =
      2 ^ len - 1 := by
    rw [UInt64.toNat_sub_of_le, shifted, UInt64.toNat_one]
    rw [UInt64.le_iff_toNat_le, shifted, UInt64.toNat_one]
    exact positive
  rw [bitAt, value, Nat.testBit_two_pow_sub_one]

theorem and_bit_eq_zero_iff (word : UInt64) {position : Nat}
    (inside : position < 64) :
    word &&& (1 <<< UInt64.ofNat position) = 0 ↔ bitAt word position = false := by
  rw [eq_zero_iff]
  constructor
  · intro none
    have here := none position
    rwa [bitAt_and, bitAt_shiftLeft 1 inside, bitAt_one, Nat.sub_self,
      decide_eq_true inside, decide_eq_true (Nat.le_refl position),
      decide_eq_true rfl, Bool.and_true, Bool.and_true, Bool.and_true] at here
  · intro unset other
    rw [bitAt_and, bitAt_shiftLeft 1 inside, bitAt_one]
    by_cases same : other = position
    · rw [same, unset, Bool.false_and]
    · have away : ¬ (position ≤ other ∧ other - position = 0) := by omega
      simp only [Bool.and_eq_false_iff, decide_eq_false_iff_not]
      omega

end Foundation
