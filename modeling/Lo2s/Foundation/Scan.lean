import Mathlib.Tactic.Common

/-!
# Scanning text

A scanner takes something off the start of a text and leaves the rest.  What it
takes is a fixed word or the longest run of characters of a class; numbers are
read from a run of digits.
-/

namespace Foundation.Scan

/-- White space. -/
def isSpace (c : Char) : Bool :=
  c == ' ' || c == '\t' || c == '\n' || c == '\x0b' || c == '\x0c' || c == '\r'

/-- The characters that end a line. -/
def endsLine (c : Char) : Bool := c == '\n' || c == '\r'

/-- A fixed word. -/
def literal : List Char → List Char → Option (List Char)
  | [], text => some text
  | _ :: _, [] => none
  | c :: cs, x :: text => if x = c then literal cs text else none

/-- The longest run of characters of a class, which is not empty. -/
def many1 (allowed : Char → Bool) (text : List Char) :
    Option (List Char × List Char) :=
  if text.takeWhile allowed = [] then none
  else some (text.takeWhile allowed, text.dropWhile allowed)

@[simp] theorem literal_append (start rest : List Char) :
    literal start (start ++ rest) = some rest := by
  induction start with
  | nil => rfl
  | cons c start induction => simpa [literal] using induction

theorem literal_some {start text rest : List Char}
    (found : literal start text = some rest) : text = start ++ rest := by
  induction start generalizing text with
  | nil => exact Option.some.inj found
  | cons c start induction =>
      cases text with
      | nil => cases found
      | cons x text =>
          rw [literal] at found
          split_ifs at found with same
          rw [same, induction found, List.cons_append]

theorem run_append {allowed : Char → Bool} {run rest : List Char}
    (inside : ∀ c ∈ run, allowed c = true)
    (ends : ∀ c ∈ rest.head?, allowed c = false) :
    (run ++ rest).takeWhile allowed = run ∧
      (run ++ rest).dropWhile allowed = rest := by
  induction run with
  | nil =>
      cases rest with
      | nil => exact ⟨rfl, rfl⟩
      | cons c rest => simp [ends c rfl]
  | cons c run induction =>
      obtain ⟨taken, left⟩ :=
        induction fun x member => inside x (List.mem_cons_of_mem c member)
      simp [inside c List.mem_cons_self, taken, left]

theorem many1_append {allowed : Char → Bool} {run rest : List Char}
    (nonempty : run ≠ []) (inside : ∀ c ∈ run, allowed c = true)
    (ends : ∀ c ∈ rest.head?, allowed c = false) :
    many1 allowed (run ++ rest) = some (run, rest) := by
  obtain ⟨taken, left⟩ := run_append inside ends
  rw [many1, taken, left, if_neg nonempty]

theorem many1_some {allowed : Char → Bool} {text run rest : List Char}
    (found : many1 allowed text = some (run, rest)) :
    text = run ++ rest ∧ run ≠ [] ∧ ∀ c ∈ run, allowed c = true := by
  unfold many1 at found
  split_ifs at found with empty
  cases found
  exact ⟨List.takeWhile_append_dropWhile.symm, empty,
    List.all_eq_true.mp List.all_takeWhile⟩

theorem many1_eq_none {allowed : Char → Bool} {text : List Char}
    (outside : ∀ c ∈ text.head?, allowed c = false) :
    many1 allowed text = none := by
  cases text with
  | nil => rfl
  | cons c text => simp [many1, outside c rfl]

/-- The value of a digit; digits above nine are small letters. -/
def digitValue (c : Char) : Nat :=
  if c.isDigit then c.toNat - '0'.toNat else c.toNat - 'a'.toNat + 10

/-- A digit of a base up to 36. -/
def isDigit (base : Nat) (c : Char) : Bool :=
  (c.isDigit || c.isLower) && decide (digitValue c < base)

/-- The number written with some digits. -/
def ofDigits (base : Nat) (digits : List Char) : Nat :=
  digits.foldl (fun value c => base * value + digitValue c) 0

/-- A number as it is written. -/
structure Numeral (base : Nat) where
  digits : List Char
  nonempty : digits ≠ []
  valid : ∀ c ∈ digits, isDigit base c = true

namespace Numeral

variable {base : Nat}

def value (number : Numeral base) : Nat := ofDigits base number.digits

/-- A number is read up to the first character that is not a digit. -/
theorem many1_append (number : Numeral base) {rest : List Char}
    (ends : ∀ c ∈ rest.head?, isDigit base c = false) :
    many1 (isDigit base) (number.digits ++ rest) = some (number.digits, rest) :=
  Scan.many1_append number.nonempty number.valid ends

end Numeral

end Foundation.Scan
