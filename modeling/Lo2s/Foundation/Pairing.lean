import Mathlib.Data.List.Induction
import Mathlib.Tactic.Common

/-!
# Operations that are opened and closed

A history names operations by keys: it opens one with an amount, uses it, and
closes all that is open under a key.  What is open under a key is the list of
amounts since its last close.
-/

namespace Foundation

/-- One stage of an operation. -/
inductive Stage (κ : Type u) (α : Type v) where
  | opened (key : κ) (amount : α)
  | used (key : κ)
  | closed (key : κ)
  deriving DecidableEq, Repr

variable {κ : Type u} {α : Type v} [DecidableEq κ]

/-- What a stage does to the amounts that are open under `key`. -/
def Stage.apply (key : κ) (open_ : List α) : Stage κ α → List α
  | .opened other amount => if other = key then open_ ++ [amount] else open_
  | .used _ => open_
  | .closed other => if other = key then [] else open_

/-- The amounts opened under `key` since it was last closed. -/
def pending (key : κ) (stages : List (Stage κ α)) : List α :=
  stages.foldl (Stage.apply key) []

@[simp] theorem pending_nil (key : κ) :
    pending key ([] : List (Stage κ α)) = [] := rfl

theorem pending_concat (key : κ) (stages : List (Stage κ α))
    (stage : Stage κ α) :
    pending key (stages ++ [stage]) = stage.apply key (pending key stages) := by
  simp [pending]

theorem opened_of_pending {key : κ} {stages : List (Stage κ α)} {amount : α}
    (isOpen : amount ∈ pending key stages) : .opened key amount ∈ stages := by
  induction stages using List.reverseRecOn with
  | nil => cases isOpen
  | append_singleton stages stage induction =>
      rw [pending_concat] at isOpen
      apply List.mem_append.mpr
      cases stage with
      | used other => exact .inl (induction isOpen)
      | closed other =>
          by_cases same : other = key
          · simp [Stage.apply, same] at isOpen
          · exact .inl (induction (by simpa [Stage.apply, same] using isOpen))
      | opened other new =>
          by_cases same : other = key
          · rw [Stage.apply, if_pos same] at isOpen
            rcases List.mem_append.mp isOpen with old | here
            · exact .inl (induction old)
            · right
              rw [List.mem_singleton.mp here, same]
              exact List.mem_singleton_self _
          · exact .inl (induction (by simpa [Stage.apply, same] using isOpen))

end Foundation
