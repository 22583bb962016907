import Lo2s.Foundation.Run

/-!
# Where a loop is left

A step of a loop returns, fails in a way that somebody handles, or fails
otherwise, and two properties of its input tell which.  The whole loop is then
described by the first input at which it does not go on.
-/

namespace Foundation

section

variable {α : Type u} {passes kind : α → Prop} {first : α} {rest : List α}

/-- Behind elements of one kind comes an element of another. -/
def StopsAt (passes kind : α → Prop) (list : List α) : Prop :=
  ∃ earlier found later, list = earlier ++ found :: later ∧
    (∀ other ∈ earlier, passes other) ∧ kind found

theorem stopsAt_nil : ¬ StopsAt passes kind [] := by
  intro stops
  obtain ⟨earlier, found, later, split, _⟩ := stops
  exact List.append_ne_nil_of_right_ne_nil earlier
    (List.cons_ne_nil found later) split.symm

theorem stopsAt_cons : StopsAt passes kind (first :: rest) ↔
    kind first ∨ passes first ∧ StopsAt passes kind rest := by
  constructor
  · intro stops
    obtain ⟨earlier, found, later, split, pass, isKind⟩ := stops
    cases earlier with
    | nil =>
        cases split
        exact .inl isKind
    | cons other earlier =>
        cases split
        exact .inr ⟨pass _ List.mem_cons_self, earlier, found, later, rfl,
          fun o member => pass o (List.mem_cons_of_mem _ member), isKind⟩
  · intro either
    rcases either with here | ⟨passes, earlier, found, later, rfl, pass, isKind⟩
    · exact ⟨[], first, rest, rfl, fun _ none => absurd none List.not_mem_nil,
        here⟩
    · exact ⟨first :: earlier, found, later, rfl,
        List.forall_mem_cons.mpr ⟨passes, pass⟩, isKind⟩

end

section

variable {ε : Type w} {α : Type u} {isHandled : ε → Prop}
  {returns handled : Prop} {result : Except ε α}

/-- A result that is told by two properties: whether there is one, and whether
a failure is one that is handled. -/
def Ends (returns handled : Prop) (isHandled : ε → Prop) :
    Except ε α → Prop
  | .ok _ => returns ∧ ¬ handled
  | .error failure => ¬ returns ∧ (handled ↔ isHandled failure)

theorem Ends.returns_iff (ends : Ends returns handled isHandled result) :
    (∃ value, result = .ok value) ↔ returns := by
  cases result with
  | ok value => exact iff_of_true ⟨value, rfl⟩ ends.1
  | error failure =>
      refine iff_of_false (fun found => ?_) ends.1
      obtain ⟨value, same⟩ := found
      cases same

theorem Ends.handled_iff (ends : Ends returns handled isHandled result) :
    (∃ failure, result = .error failure ∧ isHandled failure) ↔ handled := by
  cases result with
  | ok value =>
      refine iff_of_false (fun found => ?_) ends.2
      obtain ⟨failure, same, _⟩ := found
      cases same
  | error failure =>
      rw [ends.2]
      constructor
      · intro found
        obtain ⟨other, same, isHandled⟩ := found
        cases same
        exact isHandled
      · intro isHandled
        exact ⟨failure, rfl, isHandled⟩

theorem Ends.congr {returns' handled' : Prop} (sameReturns : returns ↔ returns')
    (sameHandled : handled ↔ handled') :
    Ends returns handled isHandled result ↔
      Ends returns' handled' isHandled result := by
  rw [propext sameReturns, propext sameHandled]

/-- A loop returns if every step does, and its failure is handled if that of the
first step that does not return is. -/
theorem Ends.run {σ : Type v} {step : σ → α → Except ε σ}
    {passes caught : α → Prop}
    (each : ∀ state input, Ends (passes input) (caught input) isHandled
      (step state input)) (state : σ) (inputs : List α) :
    Ends (∀ input ∈ inputs, passes input) (StopsAt passes caught inputs)
      isHandled (run step state inputs) := by
  induction inputs generalizing state with
  | nil => exact ⟨fun _ none => absurd none List.not_mem_nil, stopsAt_nil⟩
  | cons input inputs induction =>
      have first := each state input
      rw [Foundation.run]
      cases stepped : step state input with
      | error failure =>
          rw [stepped] at first
          refine ⟨fun all => first.1 (all input List.mem_cons_self), ?_⟩
          rw [stopsAt_cons, first.2]
          exact or_iff_left fun later => first.1 later.1
      | ok next =>
          rw [stepped] at first
          refine (Ends.congr ?_ ?_).mp (induction next)
          · rw [List.forall_mem_cons]
            exact (and_iff_right first.1).symm
          · rw [stopsAt_cons]
            exact ((or_iff_right first.2).trans (and_iff_right first.1)).symm

end

end Foundation
