import Mathlib.Tactic.Common

/-!
# Computations that keep their state when they throw

A computation takes a state and returns a value or an exception, in both cases
together with the state it leaves behind.  A computation moves along a relation
when every state it is started in is related to the one it leaves; relations
that are reflexive and transitive compose.
-/

namespace Foundation

/-- A computation on a state, which stays changed when an exception leaves. -/
def Stateful (σ ε α : Type) := σ → Except ε α × σ

namespace Stateful

variable {σ ε α β : Type}

instance : Monad (Stateful σ ε) where
  pure value := fun state => (.ok value, state)
  bind first next := fun state =>
    match first state with
    | (.ok value, state) => next value state
    | (.error thrown, state) => (.error thrown, state)

instance : MonadStateOf σ (Stateful σ ε) where
  get := fun state => (.ok state, state)
  set state := fun _ => (.ok ⟨⟩, state)
  modifyGet change := fun state => (.ok (change state).1, (change state).2)

instance : MonadExceptOf ε (Stateful σ ε) where
  throw thrown := fun state => (.error thrown, state)
  tryCatch body handler := fun state =>
    match body state with
    | (.ok value, state) => (.ok value, state)
    | (.error thrown, state) => handler thrown state

@[simp] theorem pure_apply (value : α) (state : σ) :
    (pure value : Stateful σ ε α) state = (.ok value, state) := rfl

theorem bind_apply (first : Stateful σ ε α) (next : α → Stateful σ ε β)
    (state : σ) :
    (first >>= next) state =
      match first state with
      | (.ok value, state) => next value state
      | (.error thrown, state) => (.error thrown, state) := rfl

theorem bind_of_ok {first : Stateful σ ε α} (next : α → Stateful σ ε β)
    {state : σ} {value : α} (succeeded : (first state).1 = .ok value) :
    (first >>= next) state = next value (first state).2 := by
  rw [bind_apply]
  rcases result : first state with ⟨_ | other, middle⟩
  · rw [result] at succeeded
    cases succeeded
  · rw [result] at succeeded
    cases succeeded
    rfl

theorem tryCatch_apply (body : Stateful σ ε α) (handler : ε → Stateful σ ε α)
    (state : σ) :
    tryCatch body handler state =
      match body state with
      | (.ok value, state) => (.ok value, state)
      | (.error thrown, state) => handler thrown state := rfl

/-- Every state the computation is started in is related to the one it leaves
behind. -/
def Moves (relation : σ → σ → Prop) (body : Stateful σ ε α) : Prop :=
  ∀ state, relation state (body state).2

section

variable {relation : σ → σ → Prop}

theorem moves_pure [Std.Refl relation] (value : α) :
    Moves relation (pure value : Stateful σ ε α) :=
  fun state => Std.Refl.refl state

theorem moves_throw [Std.Refl relation] (thrown : ε) :
    Moves relation (throw thrown : Stateful σ ε α) :=
  fun state => Std.Refl.refl state

theorem moves_bind [IsTrans σ relation]
    {first : Stateful σ ε α} {next : α → Stateful σ ε β}
    (firstMoves : Moves relation first)
    (nextMoves : ∀ value, Moves relation (next value)) :
    Moves relation (first >>= next) := by
  intro state
  have start := firstMoves state
  rw [bind_apply]
  rcases result : first state with ⟨_ | value, middle⟩
  · rw [result] at start
    exact start
  · rw [result] at start
    exact IsTrans.trans _ _ _ start (nextMoves value middle)

theorem moves_get_bind {next : σ → Stateful σ ε β}
    (nextMoves : ∀ state, relation state (next state state).2) :
    Moves relation (get >>= next) :=
  fun state => nextMoves state

theorem moves_tryCatch [IsTrans σ relation]
    {body : Stateful σ ε α} {handler : ε → Stateful σ ε α}
    (bodyMoves : Moves relation body)
    (handlerMoves : ∀ thrown, Moves relation (handler thrown)) :
    Moves relation (tryCatch body handler) := by
  intro state
  have start := bodyMoves state
  rw [tryCatch_apply]
  rcases result : body state with ⟨thrown | _, middle⟩
  · rw [result] at start
    exact IsTrans.trans _ _ _ start (handlerMoves thrown middle)
  · rw [result] at start
    exact start

end

/-- Only some exceptions leave a computation. -/
def Throws (allowed : ε → Prop) (body : Stateful σ ε α) : Prop :=
  ∀ state thrown, (body state).1 = .error thrown → allowed thrown

section

variable {allowed : ε → Prop}

theorem throws_pure (value : α) :
    Throws allowed (pure value : Stateful σ ε α) :=
  fun _ _ result => nomatch result

theorem throws_set (state : σ) :
    Throws allowed (set state : Stateful σ ε PUnit) :=
  fun _ _ result => nomatch result

theorem throws_throw {thrown : ε} (isAllowed : allowed thrown) :
    Throws allowed (throw thrown : Stateful σ ε α) := by
  intro state other result
  cases result
  exact isAllowed

theorem throws_bind {first : Stateful σ ε α} {next : α → Stateful σ ε β}
    (firstThrows : Throws allowed first)
    (nextThrows : ∀ value, Throws allowed (next value)) :
    Throws allowed (first >>= next) := by
  intro state thrown result
  have start := firstThrows state
  rw [bind_apply] at result
  rcases firstResult : first state with ⟨_ | value, middle⟩
  · rw [firstResult] at result start
    cases result
    exact start thrown rfl
  · rw [firstResult] at result
    exact nextThrows value middle thrown result

theorem throws_get_bind {next : σ → Stateful σ ε β}
    (nextThrows : ∀ state, Throws allowed (next state)) :
    Throws allowed (get >>= next) :=
  fun state thrown result => nextThrows state state thrown result

/-- A computation that does not throw returns a given value. -/
def Returns (result : α) (body : Stateful σ ε α) : Prop :=
  ∀ state value, (body state).1 = .ok value → value = result

theorem returns_pure (value : α) :
    Returns value (pure value : Stateful σ ε α) := by
  intro state other result
  cases result
  rfl

theorem returns_bind {first : Stateful σ ε α} {next : α → Stateful σ ε β}
    {result : β} (nextReturns : ∀ value, Returns result (next value)) :
    Returns result (first >>= next) := by
  intro state value finished
  rw [bind_apply] at finished
  rcases firstResult : first state with ⟨_ | middle, after⟩
  · rw [firstResult] at finished
    cases finished
  · rw [firstResult] at finished
    exact nextReturns middle after value finished

end

end Stateful

end Foundation
