import Mathlib.Tactic.Common

/-!
# Words of labelled brackets

A word opens and closes labels.  `replay` reads it with a stack of the labels
still open and fails when a closing label is not the one opened last.
-/

namespace Foundation

/-- A letter of a word: an opening or closing label, or neither. -/
inductive Mark (ρ : Type u) where
  | opening (label : ρ)
  | closing (label : ρ)
  | neutral
  deriving DecidableEq

section

variable {ρ : Type u} [DecidableEq ρ]

/-- The labels open after a word, the last opened first. -/
def replay : List ρ → List (Mark ρ) → Option (List ρ)
  | stack, [] => some stack
  | stack, .opening label :: word => replay (label :: stack) word
  | stack, .neutral :: word => replay stack word
  | [], .closing _ :: _ => none
  | top :: stack, .closing label :: word =>
      if label = top then replay stack word else none

/-- Every closing label closes the one opened last, and none stays open. -/
def Balanced (word : List (Mark ρ)) : Prop := replay [] word = some []

instance (word : List (Mark ρ)) : Decidable (Balanced word) :=
  inferInstanceAs (Decidable (_ = _))

theorem replay_append (stack : List ρ) (first second : List (Mark ρ)) :
    replay stack (first ++ second) =
      (replay stack first).bind fun next => replay next second := by
  induction first generalizing stack with
  | nil => rfl
  | cons mark first induction =>
      cases mark with
      | opening label => exact induction (label :: stack)
      | neutral => exact induction stack
      | closing label =>
          cases stack with
          | nil => rfl
          | cons top stack =>
              simp only [List.cons_append, replay]
              split
              · exact induction stack
              · rfl

/-- Closing the innermost open labels in order leaves the outer ones. -/
theorem replay_closings (inner outer : List ρ) :
    replay (inner ++ outer) (inner.map .closing) = some outer := by
  induction inner with
  | nil => rfl
  | cons label inner induction => simpa [replay] using induction

end

end Foundation
