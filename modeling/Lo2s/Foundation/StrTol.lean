import Lo2s.Foundation.Scan
import Mathlib.Algebra.Group.Nat.Defs
import Mathlib.Data.List.Basic

/-!
# Integers of the standard library

`std::stoi` and `std::stol` skip white space, take a sign and as many digits as
there are, and ignore the rest.  They throw when there is no digit, and when the
number does not fit the type.
-/

namespace Foundation

/-- What the conversions throw. -/
inductive NumberError where
  | invalidArgument
  | outOfRange
  deriving DecidableEq, Repr

namespace StrTol

open Scan

/-- The value of a digit of a base up to 16, in either case. -/
def digit? (c : Char) : Option Nat :=
  if c.isDigit then some (c.toNat - '0'.toNat)
  else if 'a' ≤ c ∧ c ≤ 'f' then some (c.toNat - 'a'.toNat + 10)
  else if 'A' ≤ c ∧ c ≤ 'F' then some (c.toNat - 'A'.toNat + 10)
  else none

def allowed (base : Nat) (c : Char) : Bool :=
  (digit? c).any fun value => value < base

/-- The digits at the start of a text, if any. -/
def digits? (base : Nat) (text : List Char) : Option Nat :=
  (many1 (allowed base) text).map fun run =>
    run.1.foldl (fun value c => base * value + (digit? c).getD 0) 0

/-- Base 0: the base is told by a prefix, which is no prefix of base 16 unless
a digit follows. -/
def prefixed? (text : List Char) : Option Nat :=
  match text with
  | '0' :: x :: digits =>
      if (x = 'x' ∨ x = 'X') ∧ digits.head?.any (allowed 16) then
        digits? 16 digits
      else digits? 8 text
  | '0' :: _ => digits? 8 text
  | _ => digits? 10 text

/-- The number behind white space and an optional sign. -/
def signed? (magnitude? : List Char → Option Nat) (text : List Char) :
    Option Int :=
  match text.dropWhile isSpace with
  | '-' :: rest => (magnitude? rest).map fun value : Nat => -(value : Int)
  | '+' :: rest => (magnitude? rest).map Int.ofNat
  | rest => (magnitude? rest).map Int.ofNat

/-- The result in a signed type of `bits` bits. -/
def fit (bits : Nat) : Option Int → Except NumberError Int
  | none => .error .invalidArgument
  | some value =>
      if -((2 ^ (bits - 1) : Nat) : Int) ≤ value ∧
          value < ((2 ^ (bits - 1) : Nat) : Int) then .ok value
      else .error .outOfRange

/-- `std::stoi`. -/
def stoi (text : List Char) : Except NumberError Int :=
  fit 32 (signed? (digits? 10) text)

/-- `std::stol` with base 0. -/
def stol (text : List Char) : Except NumberError Int :=
  fit 64 (signed? prefixed? text)

theorem fit_ok {bits : Nat} {number : Option Int} {value : Int}
    (fits : fit bits number = .ok value) :
    -((2 ^ (bits - 1) : Nat) : Int) ≤ value ∧
      value < ((2 ^ (bits - 1) : Nat) : Int) := by
  cases number with
  | none => cases fits
  | some number =>
      rw [fit] at fits
      split_ifs at fits with inside
      cases fits
      exact inside

theorem isDigit_ten (c : Char) : isDigit 10 c = c.isDigit := by
  unfold isDigit digitValue
  by_cases digit : c.isDigit = true
  · have bounds := digit
    simp only [Char.isDigit, ge_iff_le, Bool.and_eq_true, decide_eq_true_eq,
      UInt32.le_iff_toNat_le] at bounds
    change 48 ≤ c.toNat ∧ c.toNat ≤ 57 at bounds
    simp only [digit, Bool.true_or, if_true, Bool.true_and, decide_eq_true_eq]
    change c.toNat - 48 < 10
    omega
  · simp [digit]

theorem digit?_of_isDigit {c : Char} (digit : c.isDigit = true) :
    digit? c = some (digitValue c) := by
  rw [digit?, if_pos digit, digitValue, if_pos digit]

theorem allowed_ten (c : Char) : allowed 10 c = isDigit 10 c := by
  by_cases digit : c.isDigit = true
  · rw [allowed, digit?_of_isDigit digit, isDigit, digit]
    simp
  · rw [isDigit_ten, Bool.eq_false_iff.mpr digit, allowed, digit?,
      if_neg digit]
    split_ifs
    · simp
    · simp
    · rfl

theorem many1_congr {left right : Char → Bool}
    (same : ∀ c, left c = right c) (text : List Char) :
    many1 left text = many1 right text := by
  rw [show left = right from funext same]

theorem digits?_numeral (number : Numeral 10) :
    digits? 10 number.digits = some number.value := by
  have read : many1 (allowed 10) number.digits = some (number.digits, []) := by
    rw [many1_congr allowed_ten]
    have found : many1 (isDigit 10) (number.digits ++ []) =
        some (number.digits, []) :=
      number.many1_append fun _ none => by cases none
    rwa [List.append_nil] at found
  rw [digits?, read, Option.map_some, Numeral.value, ofDigits]
  refine congrArg some (List.foldl_ext _ _ _ fun value c member => ?_)
  have digit : c.isDigit = true := by
    rw [← isDigit_ten]
    exact number.valid c member
  rw [digit?_of_isDigit digit, Option.getD_some]

theorem signed?_numeral (number : Numeral 10) :
    signed? (digits? 10) number.digits = some (number.value : Int) := by
  obtain ⟨c, rest, split⟩ := List.exists_cons_of_ne_nil number.nonempty
  have digit : c.isDigit = true := by
    rw [← isDigit_ten]
    exact number.valid c (by rw [split]; exact List.mem_cons_self)
  have noSpace : isSpace c = false := by
    rw [Bool.eq_false_iff]
    intro space
    simp only [isSpace, Bool.or_eq_true, beq_iff_eq] at space
    rcases space with ((((rfl | rfl) | rfl) | rfl) | rfl) | rfl
    all_goals cases digit
  have kept : number.digits.dropWhile isSpace = number.digits := by
    rw [split, List.dropWhile_cons_of_neg (by rw [noSpace]; decide)]
  rw [signed?, kept]
  split
  · rename_i minus
    rw [split] at minus
    cases minus
    cases digit
  · rename_i plus
    rw [split] at plus
    cases plus
    cases digit
  · rw [digits?_numeral]
    rfl

theorem stoi_numeral (number : Numeral 10) :
    stoi number.digits = if number.value < 2 ^ 31 then .ok number.value
      else .error .outOfRange := by
  rw [stoi, signed?_numeral, fit]
  refine if_congr ?_ rfl rfl
  omega

end StrTol

end Foundation
