import Mathlib.Data.List.Forall2
import Mathlib.Order.Lattice

/-!
# Comparators of ordered maps

An ordered map compares its keys with one Boolean function and treats two keys
as equal when neither precedes the other.  `KeyOrder` collects the laws such a
comparator has to satisfy; everything below is stated for the equivalence it
induces, never for equality of keys.
-/

namespace Foundation

/-- A strict weak ordering given by a comparator. -/
class KeyOrder (κ : Type u) where
  before : κ → κ → Bool
  before_irrefl : ∀ key, before key key = false
  before_trans : ∀ {first second third},
    before first second = true → before second third = true →
      before first third = true
  incomparable_trans : ∀ {first second third},
    before first second = false → before second first = false →
      before second third = false → before third second = false →
        before first third = false

namespace KeyOrder

variable {κ : Type u} [KeyOrder κ]

/-- Keys neither of which precedes the other share one slot of a map. -/
def Equivalent (left right : κ) : Prop :=
  before left right = false ∧ before right left = false

instance (left right : κ) : Decidable (Equivalent left right) :=
  inferInstanceAs (Decidable (_ ∧ _))

@[refl, simp] theorem Equivalent.refl (key : κ) : Equivalent key key :=
  ⟨before_irrefl key, before_irrefl key⟩

@[symm] theorem Equivalent.symm {left right : κ}
    (equivalent : Equivalent left right) : Equivalent right left :=
  ⟨equivalent.2, equivalent.1⟩

@[trans] theorem Equivalent.trans {left middle right : κ}
    (first : Equivalent left middle) (second : Equivalent middle right) :
    Equivalent left right :=
  ⟨incomparable_trans first.1 first.2 second.1 second.2,
    incomparable_trans second.2 second.1 first.2 first.1⟩

/-- Equivalent keys can be exchanged on the right of an equivalence. -/
theorem Equivalent.iff_right {left right : κ}
    (equivalent : Equivalent left right) (key : κ) :
    Equivalent key left ↔ Equivalent key right :=
  ⟨fun toLeft => toLeft.trans equivalent,
    fun toRight => toRight.trans equivalent.symm⟩

/-- Two key sequences of one length that agree slot by slot. -/
abbrev EquivalentPaths (left right : List κ) : Prop :=
  List.Forall₂ Equivalent left right

theorem EquivalentPaths.refl (path : List κ) : EquivalentPaths path path :=
  List.forall₂_same.mpr (fun key _ => .refl key)

theorem EquivalentPaths.symm {left right : List κ}
    (same : EquivalentPaths left right) : EquivalentPaths right left :=
  List.Forall₂.flip (same.imp fun _ _ equivalent => equivalent.symm)

theorem EquivalentPaths.trans {first second third : List κ}
    (here : EquivalentPaths first second)
    (there : EquivalentPaths second third) : EquivalentPaths first third := by
  induction here generalizing third with
  | nil => exact there
  | cons same _ ih =>
      cases there with
      | cons next rest => exact .cons (same.trans next) (ih rest)

/-- A comparator read off an embedding into a linear order is a strict weak
ordering. -/
@[reducible] def ofRank {κ : Type u} {ρ : Type v} [LinearOrder ρ] (rank : κ → ρ)
    (before : κ → κ → Bool)
    (spec : ∀ left right, before left right = true ↔ rank left < rank right) :
    KeyOrder κ :=
  have negated : ∀ left right,
      before left right = false ↔ rank right ≤ rank left := by
    intro left right
    rw [← Bool.not_eq_true, spec, not_lt]
  { before := before
    before_irrefl := fun key => (negated key key).mpr le_rfl
    before_trans := fun first second =>
      (spec _ _).mpr (lt_trans ((spec _ _).mp first) ((spec _ _).mp second))
    incomparable_trans := fun first _ second _ =>
      (negated _ _).mpr
        (le_trans ((negated _ _).mp second) ((negated _ _).mp first)) }

end KeyOrder

end Foundation
