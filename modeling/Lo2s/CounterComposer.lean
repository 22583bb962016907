import Lo2s.CounterCollection
import Lo2s.EventResolver
import Lo2s.UserspaceCounters

/-!
# Composing counters

The counters of the configuration are looked up once, by whoever asks first.
Each scope then gets those of them that are available there, a group only
together with its leader.
-/

namespace Lo2s

open Foundation

/-- `PERF_SAMPLE_*`. -/
def perfSampleTime : UInt64 := 4
def perfSampleRead : UInt64 := 16

/-- The configuration of counters; `watermark` is how much of a buffer is filled
before it is read. -/
structure CounterConfig where
  groupEnabled : Bool
  groupLeader : String
  groupUseFrequency : Bool
  groupFrequency : UInt64
  groupCount : UInt64
  groupCounters : List String
  userspaceCounters : List String
  clockid : Option UInt32
  watermark : UInt32

/-- What the composer depends on: the configuration, and what the resolver
answers for the names in it. -/
structure CounterSources where
  config : CounterConfig
  getEventByName : String → Except EventFailure CounterEvent
  getMetricLeader : String → Except EventFailure CounterEvent

/-- `EventComposer`, as far as metrics are concerned. -/
structure CounterComposer where
  groupCounters : Option CounterCollection
  userspaceCounters : Option CounterCollection

/-- `MeasurementScope` of a metric. -/
structure MetricScope where
  isGroup : Bool
  scope : ExecutionScope

namespace CounterSources

variable (sources : CounterSources)

/-- The leader of the group as it is opened. -/
def leaderEvent (leader : CounterEvent) : CounterEvent :=
  let leader := leader.setSampleType (perfSampleTime ||| perfSampleRead)
  let leader :=
    if sources.config.groupUseFrequency then
      leader.sampleFreq sources.config.groupFrequency
    else leader.samplePeriod sources.config.groupCount
  ((leader.setClockid sources.config.clockid).setReadFormat
    (perfFormatTotalTimeEnabled ||| perfFormatTotalTimeRunning |||
      perfFormatGroup)).setWatermark sources.config.watermark

/-- A counter of the group as it is opened. -/
def counterEvent (ev : CounterEvent) : CounterEvent :=
  (ev.setClockid sources.config.clockid).setReadFormat
    (perfFormatTotalTimeEnabled ||| perfFormatTotalTimeRunning)

/-- The loop of `emplace_group_counters`, which leaves out the leader and what
is unknown. -/
def collectGroupCounters (leader : CounterEvent) :
    List String → Except EventFailure (List CounterEvent)
  | [] => .ok []
  | evName :: names =>
      if evName = leader.name then collectGroupCounters leader names
      else
        match sources.getEventByName evName with
        | .ok ev =>
            match collectGroupCounters leader names with
            | .ok counters => .ok (sources.counterEvent ev :: counters)
            | .error thrown => .error thrown
        | .error (.invalidEvent _) => collectGroupCounters leader names
        | .error thrown => .error thrown

/-- The loop of `emplace_userspace_counters`. -/
def collectUserspaceCounters :
    List String → Except EventFailure (List CounterEvent)
  | [] => .ok []
  | evName :: names =>
      match sources.getEventByName evName with
      | .ok ev =>
          match collectUserspaceCounters names with
          | .ok counters => .ok (ev :: counters)
          | .error thrown => .error thrown
      | .error (.invalidEvent _) => collectUserspaceCounters names
      | .error thrown => .error thrown

/-- The group of the configuration. -/
def groupCollection : Except EventFailure CounterCollection :=
  if sources.config.groupEnabled then
    match sources.getMetricLeader sources.config.groupLeader with
    | .error thrown => .error thrown
    | .ok leader =>
        let leader := sources.leaderEvent leader
        match sources.collectGroupCounters leader sources.config.groupCounters with
        | .error thrown => .error thrown
        | .ok counters => .ok ⟨some leader, counters⟩
  else .ok ⟨none, []⟩

/-- The userspace counters of the configuration. -/
def userspaceCollection : Except EventFailure CounterCollection :=
  match sources.collectUserspaceCounters sources.config.userspaceCounters with
  | .error thrown => .error thrown
  | .ok counters => .ok ⟨none, counters⟩

end CounterSources

namespace CounterComposer

def init : CounterComposer := ⟨none, none⟩

def emplaceGroupCounters (sources : CounterSources) (c : CounterComposer) :
    Except EventFailure (CounterComposer × CounterCollection) :=
  match c.groupCounters with
  | some collection => .ok (c, collection)
  | none =>
      match sources.groupCollection with
      | .error thrown => .error thrown
      | .ok collection =>
          .ok ({ c with groupCounters := some collection }, collection)

def emplaceUserspaceCounters (sources : CounterSources) (c : CounterComposer) :
    Except EventFailure (CounterComposer × CounterCollection) :=
  match c.userspaceCounters with
  | some collection => .ok (c, collection)
  | none =>
      match sources.userspaceCollection with
      | .error thrown => .error thrown
      | .ok collection =>
          .ok ({ c with userspaceCounters := some collection }, collection)

/-- The loop over the counters of both `_counters_for`. -/
def availableIn (scope : ExecutionScope) (counters : List CounterEvent) :
    List CounterEvent :=
  counters.filter fun ev => ev.isAvailableIn scope

/-- `group_counters_for`, of what has been collected. -/
def groupCountersFor (scope : ExecutionScope) (groupCounters : CounterCollection) :
    CounterCollection :=
  if groupCounters.empty then ⟨none, []⟩
  else
    match groupCounters.leader with
    | none => ⟨none, []⟩
    | some leader =>
        if leader.isAvailableIn scope then
          ⟨some leader, availableIn scope groupCounters.counters⟩
        else ⟨none, []⟩

/-- `userspace_counters_for`, of what has been collected. -/
def userspaceCountersFor (scope : ExecutionScope)
    (userspaceCounters : CounterCollection) : CounterCollection :=
  ⟨none, availableIn scope userspaceCounters.counters⟩

def countersFor (sources : CounterSources) (scope : MetricScope)
    (c : CounterComposer) :
    Except EventFailure (CounterComposer × CounterCollection) :=
  if scope.isGroup then
    match c.emplaceGroupCounters sources with
    | .error thrown => .error thrown
    | .ok (c, collection) => .ok (c, groupCountersFor scope.scope collection)
  else
    match c.emplaceUserspaceCounters sources with
    | .error thrown => .error thrown
    | .ok (c, collection) => .ok (c, userspaceCountersFor scope.scope collection)

end CounterComposer

/-- Two outcomes that are the same up to what is only looked at in one of them:
the result, or the kind of the exception. -/
inductive SameOutcome {α β : Type} (view : β → α) :
    Except EventFailure α → Except EventFailure β → Prop where
  | result (value : β) : SameOutcome view (.ok (view value)) (.ok value)
  | invalid (left right : String) :
      SameOutcome view (.error (.invalidEvent left))
        (.error (.invalidEvent right))
  | failure (left right : Failure) :
      SameOutcome view (.error (.failure left)) (.error (.failure right))

/-- The sources answer as the resolver does at the next lookup of a name. -/
def CounterSources.Resolves (sources : CounterSources) (r : EventResolver) :
    Prop :=
  ∀ name, SameOutcome CounterEvent.toEventAttr (r.getEventByName name).2
    (sources.getEventByName name)

namespace CounterSources.Resolves

variable {sources : CounterSources} {r : EventResolver} {name : String}

theorem known_of_answer (answered : ∀ failure,
    (r.getEventByName name).2 ≠ .error (.failure failure)) : r.Known name := by
  by_contra unknown
  obtain ⟨next, thrown, result, _, _, other⟩ :=
    EventResolver.lookups_unknown unknown
  cases thrown with
  | invalidEvent what => exact other what rfl
  | failure failure => exact answered failure (by rw [result])

/-- What a resolver has remembered of a name changes none of its answers. -/
theorem next (resolves : sources.Resolves r) (known : r.Known name) :
    sources.Resolves (r.getEventByName name).1 := by
  intro other
  obtain ⟨after, answer, looked, stands, _⟩ := known.getEventByName_spec
  have same := resolves other
  by_cases otherKnown : r.Known other
  · have nextKnown := (known.known_iff other).mpr otherKnown
    rw [looked] at nextKnown ⊢
    obtain ⟨_, old, before, _, told⟩ := otherKnown.getEventByName_spec
    obtain ⟨_, new, later, _, toldAgain⟩ := nextKnown.getEventByName_spec
    rw [before] at same
    rw [later]
    rw [stands other] at toldAgain
    cases event : r.stands other with
    | some found =>
        rw [event] at told toldAgain
        cases told
        cases toldAgain
        exact same
    | none =>
        rw [event] at told toldAgain
        obtain ⟨what, rfl⟩ := told
        obtain ⟨again, rfl⟩ := toldAgain
        simp only at same ⊢
        cases answered : sources.getEventByName other with
        | ok ev =>
            rw [answered] at same
            cases same
        | error thrown =>
            rw [answered] at same
            cases same
            exact .invalid _ _
  · have nextUnknown := mt (known.known_iff other).mp otherKnown
    obtain ⟨_, thrown, result, _, _, others⟩ :=
      EventResolver.lookups_unknown otherKnown
    obtain ⟨_, thrownAgain, resultAgain, _, _, othersAgain⟩ :=
      EventResolver.lookups_unknown nextUnknown
    rw [result] at same
    rw [resultAgain]
    cases thrown with
    | invalidEvent what => exact absurd rfl (others what)
    | failure failure =>
        cases thrownAgain with
        | invalidEvent what => exact absurd rfl (othersAgain what)
        | failure failureAgain =>
            simp only at same ⊢
            cases answered : sources.getEventByName other with
            | ok ev =>
                rw [answered] at same
                cases same
            | error thrown =>
                rw [answered] at same
                cases same
                exact .failure _ _

/-- The loop over the userspace counters has the same outcome with the sources
as with the resolver, which remembers what has been looked up. -/
theorem collectCounters (resolves : sources.Resolves r) (names : List String) :
    SameOutcome (List.map CounterEvent.toEventAttr)
      (EventComposer.collectCounters names r).2
      (sources.collectUserspaceCounters names) := by
  induction names generalizing r with
  | nil => exact .result []
  | cons name names ih =>
      have same := resolves name
      have known : (∀ failure, (r.getEventByName name).2 ≠
          .error (.failure failure)) → r.Known name :=
        known_of_answer
      have further : r.Known name →
          sources.Resolves (r.getEventByName name).1 :=
        resolves.next
      rw [EventComposer.collectCounters,
        CounterSources.collectUserspaceCounters]
      rcases looked : r.getEventByName name with ⟨after, answer⟩
      rw [looked] at same known further
      generalize sources.getEventByName name = told at same
      cases same with
      | failure left right => exact .failure left right
      | invalid left right =>
          exact ih (further (known (by simp)))
      | result ev =>
          have rest := ih (further (known (by simp)))
          rcases loop : EventComposer.collectCounters names after with
            ⟨last, outcome⟩
          rw [loop] at rest
          generalize sources.collectUserspaceCounters names = counters at rest
          simp only [loop]
          cases rest with
          | result later => exact .result (ev :: later)
          | invalid left right => exact .invalid left right
          | failure left right => exact .failure left right

end CounterSources.Resolves

end Lo2s
