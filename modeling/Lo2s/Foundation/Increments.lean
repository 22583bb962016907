import Mathlib.Algebra.BigOperators.Group.List.Basic
import Mathlib.Algebra.Order.Group.Defs
import Mathlib.Algebra.Order.Monoid.Defs
import Mathlib.Data.List.Chain
import Mathlib.Tactic.Abel

/-!
# Sums over consecutive readings

A quantity that grows with every reading is the sum of what each reading adds
to the one before it.  Differences telescope; terms that stay below them add up
to less as soon as one of them does.
-/

namespace Foundation

variable {σ : Type u} {M : Type v}

/-- What the readings add up to, each from the one before it. -/
def increments [AddMonoid M] (term : σ → σ → M) (start : σ)
    (readings : List σ) : M :=
  (List.zipWith term (start :: readings) readings).sum

section

variable [AddMonoid M] {term : σ → σ → M} {start : σ}

@[simp] theorem increments_nil : increments term start [] = 0 := rfl

theorem increments_cons (reading : σ) (readings : List σ) :
    increments term start (reading :: readings) =
      term start reading + increments term reading readings := by
  rw [increments, List.zipWith_cons_cons, List.sum_cons]
  rfl

theorem increments_concat (earlier : List σ) (reading : σ) :
    increments term start (earlier ++ [reading]) =
      increments term start earlier +
        term (earlier.getLastD start) reading := by
  induction earlier generalizing start with
  | nil =>
      rw [List.nil_append, increments_cons, increments_nil, increments_nil,
        add_zero, zero_add]
      rfl
  | cons first earlier ih =>
      rw [List.cons_append, increments_cons, ih, increments_cons, add_assoc,
        List.getLastD_cons]

end

theorem isChain_concat_iff {Step : σ → σ → Prop} {start : σ}
    {earlier : List σ} {reading : σ} :
    (start :: (earlier ++ [reading])).IsChain Step ↔
      (start :: earlier).IsChain Step ∧
        Step (earlier.getLastD start) reading := by
  induction earlier generalizing start with
  | nil => simp
  | cons first earlier ih =>
      rw [List.cons_append, List.isChain_cons_cons, ih,
        List.isChain_cons_cons, and_assoc, List.getLastD_cons]

theorem increments_sub [AddCommGroup M] (quantity : σ → M) (start : σ)
    (readings : List σ) :
    increments (fun earlier later => quantity later - quantity earlier) start
      readings = quantity (readings.getLastD start) - quantity start := by
  induction readings generalizing start with
  | nil => exact (sub_self _).symm
  | cons reading readings ih =>
      rw [increments_cons, ih, List.getLastD_cons]
      abel

section

variable [AddCommGroup M] [LinearOrder M] [IsOrderedAddMonoid M]
  {Step : σ → σ → Prop} {term bound : σ → σ → M} {start : σ}
  {readings : List σ}

theorem increments_le
    (below : ∀ earlier later, Step earlier later →
      term earlier later ≤ bound earlier later)
    (chain : (start :: readings).IsChain Step) :
    increments term start readings ≤ increments bound start readings := by
  induction readings generalizing start with
  | nil => exact le_rfl
  | cons reading readings ih =>
      rw [List.isChain_cons_cons] at chain
      rw [increments_cons, increments_cons]
      exact add_le_add (below start reading chain.1) (ih chain.2)

theorem increments_eq_iff
    (below : ∀ earlier later, Step earlier later →
      term earlier later ≤ bound earlier later)
    (chain : (start :: readings).IsChain Step) :
    increments term start readings = increments bound start readings ↔
      (start :: readings).IsChain fun earlier later =>
        term earlier later = bound earlier later := by
  induction readings generalizing start with
  | nil => simp
  | cons reading readings ih =>
      rw [List.isChain_cons_cons] at chain
      rw [increments_cons, increments_cons, List.isChain_cons_cons,
        ← ih chain.2]
      exact add_eq_add_iff_eq_and_eq (below start reading chain.1)
        (increments_le below chain.2)

end

end Foundation
