import Lo2s.Foundation.KeyOrder
import Mathlib.Data.String.Basic

/-!
# Lexicographic comparators

Comparators of pairs, optional values and sequences that look at the first
component in which the operands are not equivalent.  They are strict weak
orderings whenever the comparators of the components are, and equivalence is
equivalence in every component.
-/

namespace Foundation

namespace KeyOrder

section

variable {κ : Type u} [KeyOrder κ] {first second third : κ}

theorem before_of_equivalent_left (equivalent : Equivalent first second)
    (less : before second third = true) : before first third = true := by
  by_contra not_less
  rw [Bool.not_eq_true] at not_less
  by_cases reverse : before third first = true
  · have looped := before_trans less reverse
    rw [equivalent.2] at looped
    cases looped
  · have same : Equivalent first third :=
      ⟨not_less, Bool.eq_false_iff.mpr reverse⟩
    have apart := (equivalent.symm.trans same).1
    rw [less] at apart
    cases apart

theorem before_of_equivalent_right (less : before first second = true)
    (equivalent : Equivalent second third) : before first third = true := by
  by_contra not_less
  rw [Bool.not_eq_true] at not_less
  by_cases reverse : before third first = true
  · have looped := before_trans reverse less
    rw [equivalent.2] at looped
    cases looped
  · have same : Equivalent first third :=
      ⟨not_less, Bool.eq_false_iff.mpr reverse⟩
    have apart := (same.trans equivalent.symm).1
    rw [less] at apart
    cases apart

/-- A key precedes another one, is preceded by it, or is equivalent to it. -/
theorem before_cases (first second : κ) :
    before first second = true ∨ before second first = true ∨
      Equivalent first second := by
  cases less : before first second with
  | true => exact .inl rfl
  | false =>
      cases greater : before second first with
      | true => exact .inr (.inl rfl)
      | false => exact .inr (.inr ⟨less, greater⟩)

theorem not_before_of_before (less : before first second = true) :
    before second first = false := by
  by_contra greater
  rw [Bool.not_eq_false] at greater
  have looped := before_trans less greater
  rw [before_irrefl] at looped
  cases looped

end

/-- The operands of a comparator exchanged. -/
@[reducible] def reverse (κ : Type u) [KeyOrder κ] : KeyOrder κ where
  before left right := before right left
  before_irrefl := before_irrefl
  before_trans less next := before_trans next less
  incomparable_trans less greater next back :=
    incomparable_trans next back less greater

/-- Values compared by a key of theirs. -/
@[reducible] def comap {α : Type u} {κ : Type v} [KeyOrder κ] (key : α → κ) :
    KeyOrder α where
  before left right := before (key left) (key right)
  before_irrefl value := before_irrefl (key value)
  before_trans := before_trans
  incomparable_trans := incomparable_trans

/-- A comparator that is another way to write the one there is. -/
@[reducible] def copy {κ : Type u} [KeyOrder κ] (other : κ → κ → Bool)
    (same : ∀ left right, other left right = before left right) : KeyOrder κ where
  before := other
  before_irrefl key := by
    rw [same]
    exact before_irrefl key
  before_trans {first second third} := by
    rw [same, same, same]
    exact before_trans
  incomparable_trans {first second third} := by
    rw [same, same, same, same, same]
    exact incomparable_trans

section Pair

variable {κ : Type u} {ν : Type v} [KeyOrder κ] [KeyOrder ν]

def pairBefore (left right : κ × ν) : Bool :=
  if before left.1 right.1 then true
  else if before right.1 left.1 then false
  else before left.2 right.2

theorem pairBefore_iff {left right : κ × ν} :
    pairBefore left right = true ↔ before left.1 right.1 = true ∨
      Equivalent left.1 right.1 ∧ before left.2 right.2 = true := by
  rw [pairBefore, Equivalent]
  split_ifs with less greater
  · simp [less]
  · simp [less, greater]
  · simp [less, greater]

theorem not_pairBefore_iff {left right : κ × ν} :
    pairBefore left right = false ∧ pairBefore right left = false ↔
      Equivalent left.1 right.1 ∧ Equivalent left.2 right.2 := by
  rw [← Bool.not_eq_true, ← Bool.not_eq_true, pairBefore_iff, pairBefore_iff]
  constructor
  · rintro ⟨notLess, notGreater⟩
    rcases before_cases left.1 right.1 with less | greater | same
    · exact absurd (.inl less) notLess
    · exact absurd (.inl greater) notGreater
    · refine ⟨same, Bool.eq_false_iff.mpr fun less =>
        notLess (.inr ⟨same, less⟩), Bool.eq_false_iff.mpr fun greater =>
        notGreater (.inr ⟨same.symm, greater⟩)⟩
  · rintro ⟨same, next⟩
    simp [same.1, same.2, next.1, next.2]

instance pair : KeyOrder (κ × ν) where
  before := pairBefore
  before_irrefl key := by
    rw [pairBefore, before_irrefl, before_irrefl]
    rfl
  before_trans {first second third} less next := by
    rw [pairBefore_iff] at less next ⊢
    rcases less with less | ⟨same, less⟩
    · rcases next with next | ⟨nextSame, -⟩
      · exact .inl (before_trans less next)
      · exact .inl (before_of_equivalent_right less nextSame)
    · rcases next with next | ⟨nextSame, next⟩
      · exact .inl (before_of_equivalent_left same next)
      · exact .inr ⟨same.trans nextSame, before_trans less next⟩
  incomparable_trans {first second third} less greater next back := by
    have here := not_pairBefore_iff.mp ⟨less, greater⟩
    have there := not_pairBefore_iff.mp ⟨next, back⟩
    exact (not_pairBefore_iff.mpr
      ⟨here.1.trans there.1, here.2.trans there.2⟩).1

theorem pairBefore_congr {μ : Type*} [KeyOrder μ] {first second : κ}
    {left right : ν} {left' right' : μ}
    (same : before left right = before left' right') :
    pairBefore (first, left) (second, right) =
      pairBefore (first, left') (second, right') := by
  simp only [pairBefore, same]

theorem equivalent_pair {left right : κ × ν} :
    Equivalent left right ↔
      Equivalent left.1 right.1 ∧ Equivalent left.2 right.2 :=
  not_pairBefore_iff

end Pair

section Optional

variable {κ : Type u} [KeyOrder κ]

def optionBefore : Option κ → Option κ → Bool
  | _, none => false
  | none, some _ => true
  | some left, some right => before left right

instance option : KeyOrder (Option κ) where
  before := optionBefore
  before_irrefl key := by
    cases key with
    | none => rfl
    | some key => exact before_irrefl key
  before_trans {first second third} less next := by
    cases third with
    | none => cases second <;> cases next
    | some third =>
        cases first with
        | none => rfl
        | some first =>
            cases second with
            | none => cases less
            | some second => exact before_trans less next
  incomparable_trans {first second third} less greater next back := by
    cases third with
    | none => cases first <;> rfl
    | some third =>
        cases second with
        | none => cases next
        | some second =>
            cases first with
            | none => cases less
            | some first => exact incomparable_trans less greater next back

theorem equivalent_option {left right : Option κ} :
    Equivalent left right ↔ Option.Rel Equivalent left right := by
  constructor
  · rintro ⟨notLess, notGreater⟩
    cases left with
    | none =>
        cases right with
        | none => exact .none
        | some right => cases notLess
    | some left =>
        cases right with
        | none => cases notGreater
        | some right => exact .some ⟨notLess, notGreater⟩
  · intro related
    cases related with
    | none => exact .refl none
    | some same => exact same

end Optional

section Sequence

variable {κ : Type u} [KeyOrder κ]

def listBefore : List κ → List κ → Bool
  | _, [] => false
  | [], _ :: _ => true
  | left :: lefts, right :: rights =>
      if before left right then true
      else if before right left then false
      else listBefore lefts rights

theorem listBefore_cons_iff {left right : κ} {lefts rights : List κ} :
    listBefore (left :: lefts) (right :: rights) = true ↔
      before left right = true ∨
        Equivalent left right ∧ listBefore lefts rights = true := by
  rw [listBefore, Equivalent]
  split_ifs with less greater
  · simp [less]
  · simp [less, greater]
  · simp [less, greater]

theorem listBefore_irrefl (keys : List κ) : listBefore keys keys = false := by
  induction keys with
  | nil => rfl
  | cons key keys ih =>
      rw [listBefore, before_irrefl, ih]
      rfl

theorem listBefore_trans {first second third : List κ}
    (less : listBefore first second = true)
    (next : listBefore second third = true) :
    listBefore first third = true := by
  induction first generalizing second third with
  | nil =>
      cases third with
      | nil => cases second <;> cases next
      | cons key keys => rfl
  | cons key keys ih =>
      cases second with
      | nil => cases less
      | cons middle middles =>
          cases third with
          | nil => cases next
          | cons last lasts =>
              rw [listBefore_cons_iff] at less next ⊢
              rcases less with less | ⟨same, less⟩
              · rcases next with next | ⟨nextSame, -⟩
                · exact .inl (before_trans less next)
                · exact .inl (before_of_equivalent_right less nextSame)
              · rcases next with next | ⟨nextSame, next⟩
                · exact .inl (before_of_equivalent_left same next)
                · exact .inr ⟨same.trans nextSame, ih less next⟩

/-- Sequences are incomparable if they are equivalent key by key. -/
theorem not_listBefore_iff {left right : List κ} :
    listBefore left right = false ∧ listBefore right left = false ↔
      EquivalentPaths left right := by
  induction left generalizing right with
  | nil =>
      cases right with
      | nil => simp [listBefore]
      | cons key keys => simp [listBefore]
  | cons key keys ih =>
      cases right with
      | nil => simp [listBefore]
      | cons other others =>
          rw [EquivalentPaths, List.forall₂_cons, ← EquivalentPaths, ← ih,
            ← Bool.not_eq_true, ← Bool.not_eq_true, listBefore_cons_iff,
            listBefore_cons_iff]
          constructor
          · rintro ⟨notLess, notGreater⟩
            rcases before_cases key other with less | greater | same
            · exact absurd (.inl less) notLess
            · exact absurd (.inl greater) notGreater
            · refine ⟨same, Bool.eq_false_iff.mpr fun less =>
                notLess (.inr ⟨same, less⟩), Bool.eq_false_iff.mpr fun greater =>
                notGreater (.inr ⟨same.symm, greater⟩)⟩
          · rintro ⟨same, rest⟩
            simp [same.1, same.2, rest.1, rest.2]

instance list : KeyOrder (List κ) where
  before := listBefore
  before_irrefl := listBefore_irrefl
  before_trans := listBefore_trans
  incomparable_trans {first second third} less greater next back := by
    have here := not_listBefore_iff.mp ⟨less, greater⟩
    have there := not_listBefore_iff.mp ⟨next, back⟩
    exact (not_listBefore_iff.mpr (EquivalentPaths.trans here there)).1

theorem equivalent_list {left right : List κ} :
    Equivalent left right ↔ EquivalentPaths left right :=
  not_listBefore_iff

end Sequence

instance string : KeyOrder String :=
  .ofRank id (fun left right => left < right) fun _ _ => decide_eq_true_iff

theorem equivalent_string {left right : String} :
    Equivalent left right ↔ left = right := by
  change decide (left < right) = false ∧ decide (right < left) = false ↔ _
  rw [decide_eq_false_iff_not, decide_eq_false_iff_not, not_lt, not_lt]
  exact ⟨fun both => le_antisymm both.2 both.1, fun same =>
    ⟨same.ge, same.le⟩⟩

end KeyOrder

end Foundation
