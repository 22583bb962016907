import Mathlib.Data.List.Induction
import Mathlib.Data.List.Infix
import Mathlib.Tactic.Common

/-!
# Runs of a fallible step function

A system is a step function that may fail.  `run` performs a list of inputs,
`AllowedRun` says that each input of the list is allowed in the state it meets,
and `Reachable` collects the states of all runs that do not fail.
-/

namespace Foundation

variable {σ : Type u} {ι : Type v} {ε : Type w}

/-- Two computations in a row succeed if the second does on what the first
returns. -/
theorem bind_eq_ok_iff {α : Type u} {β : Type v} {first : Except ε α}
    {second : α → Except ε β} {result : β} :
    first.bind second = .ok result ↔
      ∃ value, first = .ok value ∧ second value = .ok result := by
  cases first <;> simp [Except.bind]

/-- All inputs of a list, one after the other, up to the first failure. -/
def run (step : σ → ι → Except ε σ) : σ → List ι → Except ε σ
  | state, [] => .ok state
  | state, input :: inputs =>
      match step state input with
      | .error failure => .error failure
      | .ok next => run step next inputs

/-- Every input is allowed in the state the earlier ones lead to. -/
def AllowedRun (step : σ → ι → Except ε σ) (allowed : σ → ι → Prop) :
    σ → List ι → Prop
  | _, [] => True
  | state, input :: inputs =>
      allowed state input ∧
        ∀ next, step state input = .ok next →
          AllowedRun step allowed next inputs

/-- After every part of the inputs that has been performed, the run has not
failed, and a property of that part and of the state holds. -/
def Always (step : σ → ι → Except ε σ) (start : σ)
    (property : List ι → σ → Prop) (inputs : List ι) : Prop :=
  ∀ earlier, earlier <+: inputs →
    ∃ state, run step start earlier = .ok state ∧ property earlier state

/-- Every input is met in a state where it is good. -/
def EveryStep (step : σ → ι → Except ε σ) (start : σ)
    (good : σ → ι → Prop) (inputs : List ι) : Prop :=
  ∀ earlier input, earlier ++ [input] <+: inputs →
    ∀ state, run step start earlier = .ok state → good state input

/-- Every element of a history is good after the elements before it. -/
def Throughout {α : Type u} (good : List α → α → Prop) (history : List α) : Prop :=
  ∀ earlier element, earlier ++ [element] <+: history → good earlier element

namespace Throughout

variable {α : Type u} {good : List α → α → Prop}

@[simp] theorem nil : Throughout good [] := by
  intro earlier element within
  simp at within

theorem earlier {start history : List α} (throughout : Throughout good history)
    (within : start <+: history) : Throughout good start :=
  fun before element inside => throughout before element (inside.trans within)

theorem cons_iff {element : α} {history : List α} :
    Throughout good (element :: history) ↔
      good [] element ∧
        Throughout (fun earlier => good (element :: earlier)) history := by
  constructor
  · intro throughout
    refine ⟨throughout [] element (by simp), ?_⟩
    intro earlier other within
    exact throughout (element :: earlier) other (by simpa using within)
  · intro both earlier other within
    obtain ⟨first, rest⟩ := both
    cases earlier with
    | nil =>
        have same : other = element := by simpa using within
        exact same ▸ first
    | cons head earlier =>
        obtain ⟨rfl, inside⟩ := List.cons_prefix_cons.mp within
        exact rest earlier other inside

theorem concat_iff {history : List α} {element : α} :
    Throughout good (history ++ [element]) ↔
      Throughout good history ∧ good history element := by
  constructor
  · intro throughout
    exact ⟨throughout.earlier (List.prefix_append _ _),
      throughout history element List.prefix_rfl⟩
  · intro both earlier other within
    obtain ⟨throughout, last⟩ := both
    rcases List.prefix_concat_iff.mp within with whole | inside
    · obtain ⟨rfl, same⟩ := List.append_inj' whole rfl
      rw [List.cons.injEq] at same
      exact same.1 ▸ last
    · exact throughout earlier other inside

end Throughout

/-- The states of the runs from `start` that do not fail. -/
inductive Reachable (step : σ → ι → Except ε σ) (start : σ) : σ → Prop where
  | start : Reachable step start start
  | step {state next : σ} {input : ι} :
      Reachable step start state → step state input = .ok next →
      Reachable step start next

section

variable {step : σ → ι → Except ε σ} {allowed : σ → ι → Prop}

theorem run_append (state : σ) (first second : List ι) :
    run step state (first ++ second) =
      match run step state first with
      | .error failure => .error failure
      | .ok next => run step next second := by
  induction first generalizing state with
  | nil => rfl
  | cons input first induction =>
      simp only [List.cons_append, run]
      cases step state input with
      | error _ => rfl
      | ok next => exact induction next

theorem run_concat (state : σ) (inputs : List ι) (input : ι) :
    run step state (inputs ++ [input]) =
      match run step state inputs with
      | .error failure => .error failure
      | .ok next => step next input := by
  rw [run_append]
  cases run step state inputs with
  | error _ => rfl
  | ok next =>
      simp only [run]
      cases step next input <;> rfl

theorem run_concat_eq_ok_iff {state final : σ} {inputs : List ι} {input : ι} :
    run step state (inputs ++ [input]) = .ok final ↔
      ∃ middle, run step state inputs = .ok middle ∧
        step middle input = .ok final := by
  rw [run_concat]
  cases run step state inputs <;> simp

theorem run_after {start state next final : σ} {earlier later : List ι}
    {input : ι} (whole : run step start (earlier ++ input :: later) = .ok final)
    (reached : run step start earlier = .ok state)
    (stepped : step state input = .ok next) : run step next later = .ok final := by
  rw [run_append, reached] at whole
  simpa only [run, stepped] using whole

theorem allowedRun_cons_iff {state : σ} {input : ι} {inputs : List ι} :
    AllowedRun step allowed state (input :: inputs) ↔
      allowed state input ∧
        match step state input with
        | .error _ => True
        | .ok next => AllowedRun step allowed next inputs := by
  rw [AllowedRun]
  cases step state input <;> simp

instance AllowedRun.decidable [∀ state input, Decidable (allowed state input)] :
    ∀ state inputs, Decidable (AllowedRun step allowed state inputs)
  | _, [] => isTrue trivial
  | state, input :: inputs =>
      haveI : Decidable (match step state input with
          | .error _ => True
          | .ok next => AllowedRun step allowed next inputs) :=
        match step state input with
        | .error _ => isTrue trivial
        | .ok next => AllowedRun.decidable next inputs
      decidable_of_iff' _ allowedRun_cons_iff

theorem AllowedRun.earlier {state : σ} {earlier inputs : List ι}
    (allowedRun : AllowedRun step allowed state inputs)
    (start : earlier <+: inputs) : AllowedRun step allowed state earlier := by
  induction earlier generalizing state inputs with
  | nil => exact trivial
  | cons input earlier induction =>
      obtain ⟨later, rfl⟩ := start
      exact ⟨allowedRun.1, fun next stepped =>
        induction (allowedRun.2 next stepped) (List.prefix_append _ _)⟩

theorem AllowedRun.concat {state reached : σ} {inputs : List ι} {input : ι}
    (allowedRun : AllowedRun step allowed state inputs)
    (ran : run step state inputs = .ok reached)
    (here : allowed reached input) :
    AllowedRun step allowed state (inputs ++ [input]) := by
  induction inputs generalizing state with
  | nil =>
      rw [← Except.ok.inj ran] at here
      exact ⟨here, fun _ _ => trivial⟩
  | cons first inputs induction =>
      refine ⟨allowedRun.1, fun next stepped => ?_⟩
      apply induction (allowedRun.2 next stepped)
      rw [run, stepped] at ran
      exact ran

/-- An invariant that makes every allowed input succeed and survives it holds
at the end of every allowed run, which does not fail. -/
theorem run_invariant {invariant : σ → Prop}
    (preserved : ∀ state input, invariant state → allowed state input →
      ∃ next, step state input = .ok next ∧ invariant next)
    {state : σ} {inputs : List ι} (initially : invariant state)
    (allowedRun : AllowedRun step allowed state inputs) :
    ∃ final, run step state inputs = .ok final ∧ invariant final := by
  induction inputs generalizing state with
  | nil => exact ⟨state, rfl, initially⟩
  | cons input inputs induction =>
      obtain ⟨next, stepped, holds⟩ :=
        preserved state input initially allowedRun.1
      obtain ⟨final, finished, finalHolds⟩ :=
        induction holds (allowedRun.2 next stepped)
      exact ⟨final, by rw [run, stepped]; exact finished, finalHolds⟩

/-- An invariant of the start that survives every successful step holds in
every reachable state. -/
theorem Reachable.invariant {invariant : σ → Prop} {start state : σ}
    (reachable : Reachable step start state) (initially : invariant start)
    (preserved : ∀ state input next, invariant state →
      step state input = .ok next → invariant next) : invariant state := by
  induction reachable with
  | start => exact initially
  | step _ stepped induction => exact preserved _ _ _ induction stepped

theorem AllowedRun.at_step {start state : σ} {inputs earlier : List ι}
    {input : ι} (allowedRun : AllowedRun step allowed start inputs)
    (within : earlier ++ [input] <+: inputs)
    (reached : run step start earlier = .ok state) : allowed state input := by
  induction earlier generalizing start inputs with
  | nil =>
      obtain ⟨later, rfl⟩ := within
      rw [run, Except.ok.injEq] at reached
      exact reached ▸ allowedRun.1
  | cons first earlier induction =>
      obtain ⟨later, rfl⟩ := within
      rw [run] at reached
      cases stepped : step start first with
      | error _ => simp [stepped] at reached
      | ok next =>
          rw [stepped] at reached
          exact induction (allowedRun.2 next stepped) ⟨later, rfl⟩ reached

theorem AllowedRun.of_forall (always : ∀ state input, allowed state input)
    (start : σ) (inputs : List ι) : AllowedRun step allowed start inputs := by
  induction inputs generalizing start with
  | nil => exact trivial
  | cons input inputs induction =>
      exact ⟨always start input, fun next _ => induction next⟩

theorem AllowedRun.and_forall {good : ι → Prop} {state : σ} {inputs : List ι}
    (allowedRun : AllowedRun step allowed state inputs)
    (all : ∀ input ∈ inputs, good input) :
    AllowedRun step (fun state input => allowed state input ∧ good input) state
      inputs := by
  induction inputs generalizing state with
  | nil => exact trivial
  | cons input inputs induction =>
      refine ⟨⟨allowedRun.1, all input List.mem_cons_self⟩, ?_⟩
      intro next stepped
      exact induction (allowedRun.2 next stepped)
        fun other member => all other (List.mem_cons_of_mem _ member)

/-- An invariant of the inputs so far and the state, kept by the steps of one
run, holds all along that run. -/
theorem keeps_along (invariant : List ι → σ → Prop) {start : σ}
    {inputs : List ι} (initially : invariant [] start)
    (kept : ∀ earlier state input, earlier ++ [input] <+: inputs →
      run step start earlier = .ok state → invariant earlier state →
        ∃ next, step state input = .ok next ∧
          invariant (earlier ++ [input]) next) :
    Always step start invariant inputs := by
  intro earlier
  induction earlier using List.reverseRecOn with
  | nil => exact fun _ => ⟨start, rfl, initially⟩
  | append_singleton earlier input induction =>
      intro within
      obtain ⟨state, reached, holds⟩ :=
        induction ((List.prefix_append earlier [input]).trans within)
      obtain ⟨next, stepped, nextHolds⟩ :=
        kept earlier state input within reached holds
      exact ⟨next, by rw [run_concat, reached]; exact stepped, nextHolds⟩

/-- Where an invariant makes every step with a good input succeed, all steps of
a run with such inputs have the result that each of them has. -/
theorem everyStep_of_invariant {invariant : σ → Prop} {good : ι → Prop}
    {result : ι → σ → Prop}
    (preserved : ∀ state input, invariant state → good input →
      ∃ next, step state input = .ok next ∧ invariant next ∧
        result input next)
    {start : σ} (initially : invariant start) {inputs : List ι}
    (all : ∀ input ∈ inputs, good input) :
    EveryStep step start (fun state input =>
      ∃ next, step state input = .ok next ∧ result input next) inputs := by
  have fine : ∀ {earlier : List ι} {input : ι},
      earlier ++ [input] <+: inputs → good input :=
    fun within => all _ (within.subset
      (List.mem_append_right _ List.mem_cons_self))
  have kept : Always step start (fun _ => invariant) inputs := by
    apply keeps_along (fun _ => invariant) initially
    intro earlier state input within _ holds
    obtain ⟨next, stepped, nextHolds, _⟩ :=
      preserved state input holds (fine within)
    exact ⟨next, stepped, nextHolds⟩
  intro earlier input within state reached
  obtain ⟨same, again, holds⟩ :=
    kept earlier ((List.prefix_append _ _).trans within)
  cases reached.symm.trans again
  obtain ⟨next, stepped, _, outcome⟩ :=
    preserved state input holds (fine within)
  exact ⟨next, stepped, outcome⟩

/-- An invariant of the inputs so far and the state that survives every
successful step holds after every run that does not fail. -/
theorem invariant_of_run (invariant : List ι → σ → Prop) {start : σ}
    (initially : invariant [] start)
    (kept : ∀ earlier state input next, invariant earlier state →
      step state input = .ok next → invariant (earlier ++ [input]) next)
    {inputs : List ι} {state : σ} (reached : run step start inputs = .ok state) :
    invariant inputs state := by
  induction inputs using List.reverseRecOn generalizing state with
  | nil =>
      rw [run, Except.ok.injEq] at reached
      exact reached ▸ initially
  | append_singleton inputs input induction =>
      obtain ⟨middle, before, stepped⟩ := run_concat_eq_ok_iff.mp reached
      exact kept inputs middle input state (induction before) stepped

/-- What every successful step needs of its input has been so all along a run
that has not failed. -/
theorem forall_of_run {good : ι → Prop}
    (needed : ∀ state input next, step state input = .ok next → good input)
    {start state : σ} {inputs : List ι}
    (ran : run step start inputs = .ok state) : ∀ input ∈ inputs, good input := by
  refine invariant_of_run (fun inputs _ => ∀ input ∈ inputs, good input)
    (fun _ member => absurd member List.not_mem_nil) ?_ ran
  intro earlier state input next before stepped other member
  rcases List.mem_append.mp member with old | new
  · exact before other old
  · rw [List.mem_singleton.mp new]
    exact needed state input next stepped

theorem Reachable.of_run {start state : σ} {inputs : List ι}
    (ran : run step start inputs = .ok state) : Reachable step start state :=
  invariant_of_run (fun _ => Reachable step start) .start
    (fun _ _ _ _ reachable stepped => reachable.step stepped) ran

/-- Where every step succeeds and keeps the invariant, so does every run. -/
theorem run_total {invariant : σ → Prop}
    (total : ∀ state input, invariant state →
      ∃ next, step state input = .ok next ∧ invariant next)
    {start : σ} (initially : invariant start) (inputs : List ι) :
    ∃ state, run step start inputs = .ok state ∧ invariant state := by
  refine keeps_along (fun _ => invariant) initially ?_ inputs List.prefix_rfl
  exact fun _ state input _ _ holds => total state input holds

/-- A system that makes progress with one input comes to an end with it. -/
theorem exists_run_of_measure {invariant done : σ → Prop} (measure : σ → Nat)
    {input : ι}
    (progress : ∀ state, invariant state → ¬ done state →
      ∃ next, step state input = .ok next ∧ invariant next ∧
        measure next < measure state)
    {state : σ} (holds : invariant state) :
    ∃ count final, run step state (List.replicate count input) = .ok final ∧
      invariant final ∧ done final := by
  by_cases finished : done state
  · exact ⟨0, state, rfl, holds, finished⟩
  · obtain ⟨next, stepped, nextHolds, smaller⟩ :=
      progress state holds finished
    obtain ⟨count, final, reached, finalHolds, finalDone⟩ :=
      exists_run_of_measure measure progress nextHolds
    refine ⟨count + 1, final, ?_, finalHolds, finalDone⟩
    rw [List.replicate_succ, run, stepped]
    exact reached
termination_by measure state

/-- Two systems whose related states step to related states have runs to
related states. -/
theorem run_simulates {σ' : Type*} {ι' : Type*} {ε' : Type*}
    {step' : σ' → ι' → Except ε' σ'} {related : σ → σ' → Prop}
    (translate : ι → ι')
    (simulates : ∀ state state' input, related state state' →
      allowed state input → ∃ next next', step state input = .ok next ∧
        step' state' (translate input) = .ok next' ∧ related next next')
    {state : σ} {state' : σ'} {inputs : List ι} (start : related state state')
    (allowedRun : AllowedRun step allowed state inputs) :
    ∃ final final', run step state inputs = .ok final ∧
      run step' state' (inputs.map translate) = .ok final' ∧
      related final final' := by
  induction inputs generalizing state state' with
  | nil => exact ⟨state, state', rfl, rfl, start⟩
  | cons input inputs induction =>
      obtain ⟨next, next', stepped, stepped', both⟩ :=
        simulates state state' input start allowedRun.1
      obtain ⟨final, final', reached, reached', ends⟩ :=
        induction both (allowedRun.2 next stepped)
      refine ⟨final, final', ?_, ?_, ends⟩
      · rw [run, stepped]
        exact reached
      · rw [List.map_cons, run, stepped']
        exact reached'

/-- A property of the inputs so far and the state they lead to holds all along
a run if and only if every step of the run is good, where good steps keep an
invariant that implies the property, and any other step breaks the property. -/
theorem always_iff (invariant : List ι → σ → Prop)
    {property : List ι → σ → Prop} {good : σ → ι → Prop}
    (visible : ∀ earlier state, invariant earlier state →
      property earlier state)
    (kept : ∀ earlier state input, invariant earlier state →
      allowed state input → good state input →
        ∃ next, step state input = .ok next ∧
          invariant (earlier ++ [input]) next)
    (broken : ∀ earlier state input next, invariant earlier state →
      allowed state input → step state input = .ok next →
        property (earlier ++ [input]) next → good state input)
    {start : σ} (initially : invariant [] start) {inputs : List ι}
    (allowedRun : AllowedRun step allowed start inputs) :
    Always step start property inputs ↔ EveryStep step start good inputs := by
  constructor
  · intro always
    -- The step after a state is seen to be good by what it leads to.
    have goodAt : ∀ {earlier} input state, earlier ++ [input] <+: inputs →
        run step start earlier = .ok state → invariant earlier state →
          good state input := by
      intro earlier input state within reached holds
      obtain ⟨next, nextReached, nextHolds⟩ := always _ within
      rw [run_concat, reached] at nextReached
      exact broken earlier state input next holds
        (allowedRun.at_step within reached) nextReached nextHolds
    intro earlier input within state reached
    obtain ⟨same, sameReached, holds⟩ := keeps_along invariant initially
      (fun before state other within reached holds =>
        kept before state other holds (allowedRun.at_step within reached)
          (goodAt other state within reached holds))
      earlier ((List.prefix_append earlier [input]).trans within)
    rw [reached, Except.ok.injEq] at sameReached
    subst sameReached
    exact goodAt input state within reached holds
  · intro allGood earlier within
    obtain ⟨state, reached, holds⟩ := keeps_along invariant initially
      (fun before state input within reached holds =>
        kept before state input holds (allowedRun.at_step within reached)
          (allGood before input within state reached))
      earlier within
    exact ⟨state, reached, visible earlier state holds⟩

end

end Foundation
