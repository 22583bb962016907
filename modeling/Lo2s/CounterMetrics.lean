import Lo2s.CounterBuffer
import Lo2s.CounterComposer
import Lo2s.Foundation.Registry
import Lo2s.TracepointMetrics

/-!
# Metrics of counters

The members of a metric class are defined from the counters of a scope, and the
values of its events are filled from the buffer of a reader, which has asked for
the same counters before.  A group has its leader in front and two times at the
end.

The registry itself comes from the trace library, and is a parameter.
-/

namespace Lo2s

open Foundation

namespace CounterEvent

/-- What `get_event_metric_member` defines. -/
def member (ev : CounterEvent) : MetricMember :=
  ⟨ev.name, ev.name, .accumulatedStart, .double, ev.unit⟩

end CounterEvent

def enabledMember : MetricMember :=
  ⟨"time_enabled", "time event active", .accumulatedStart, .uint64, "ns"⟩

def runningMember : MetricMember :=
  ⟨"time_running", "time event on CPU", .accumulatedStart, .uint64, "ns"⟩

/-- `registry_`, as far as counters use it: `BySamplingEvent` and `ByString` for
members, of which `member` is what they show, and `ByCounterCollection` for
classes. -/
structure MetricRegistry (ρ σ η γ θ : Type) where
  events : Registry ρ CounterEvent MetricMember η
  names : Registry σ String MetricMember η
  classes : GroupRegistry γ CounterCollection Unit θ η
  member : η → MetricMember

/-- What has been defined in it. -/
structure MetricDefinitions (ρ σ γ : Type) where
  events : ρ
  names : σ
  classes : γ

/-- The composer and the registry, which all scopes share. -/
structure MetricState (ρ σ γ : Type) where
  composer : CounterComposer
  definitions : MetricDefinitions ρ σ γ

variable {ρ σ η γ θ : Type}

namespace MetricRegistry

variable (registry : MetricRegistry ρ σ η γ θ)

/-- The registry identifies keys by their operator, and a definition shows what
it has been made with. -/
structure Lawful : Prop where
  events : registry.events.Interns
  names : registry.names.Interns
  classes : registry.classes.Gathers
  member_event : ∀ {r ev} (data : MetricMember),
    registry.events.find r ev = none →
      registry.member (registry.events.emplace r ev data).1 = data
  member_name : ∀ {r name} (data : MetricMember),
    registry.names.find r name = none →
      registry.member (registry.names.emplace r name data).1 = data

def addMember (metricClass : θ) (member : η) (d : MetricDefinitions ρ σ γ) :
    MetricDefinitions ρ σ γ :=
  { d with classes := registry.classes.addMember d.classes metricClass member }

/-- `add_member` of `get_event_metric_member`, for one event after the other. -/
def addEvents (metricClass : θ) : List CounterEvent → MetricDefinitions ρ σ γ →
    MetricDefinitions ρ σ γ
  | [], d => d
  | ev :: evs, d =>
      let (member, events) := registry.events.emplace d.events ev ev.member
      addEvents metricClass evs
        (registry.addMember metricClass member { d with events := events })

/-- The members for the times. -/
def addTimes (metricClass : θ) (d : MetricDefinitions ρ σ γ) :
    MetricDefinitions ρ σ γ :=
  let (enabled, names) :=
    registry.names.emplace d.names "time_enabled" enabledMember
  let d := registry.addMember metricClass enabled { d with names := names }
  let (running, names) :=
    registry.names.emplace d.names "time_running" runningMember
  registry.addMember metricClass running { d with names := names }

/-- `perf_metric_class`.  The class is registered before its members are added,
and stays so if there is no leader. -/
def perfMetricClass (sources : CounterSources) (scope : MetricScope)
    (s : MetricState ρ σ γ) : MetricState ρ σ γ × Except EventFailure θ :=
  match s.composer.countersFor sources scope with
  | .error thrown => (s, .error thrown)
  | .ok (composer, collection) =>
      match registry.classes.find s.definitions.classes collection with
      | some metricClass => (⟨composer, s.definitions⟩, .ok metricClass)
      | none =>
          let (metricClass, classes) :=
            registry.classes.emplace s.definitions.classes collection ()
          let d := { s.definitions with classes := classes }
          if scope.isGroup && collection.leader.isNone then
            (⟨composer, d⟩, .error (.failure
              (.runtimeError "No suitable grouped metrics leader event!")))
          else
            let events :=
              if scope.isGroup then collection.events else collection.counters
            let d := registry.addEvents metricClass events d
            let d := if scope.isGroup then registry.addTimes metricClass d else d
            (⟨composer, d⟩, .ok metricClass)

/-- The members of the class of an event, when the event is made. -/
def membersOf (metricClass : θ) (s : MetricState ρ σ γ) : List η :=
  registry.classes.members s.definitions.classes metricClass

end MetricRegistry

/-- An assignment to an element of `raw_values()`. -/
def setValue (i : Nat) (value : ℚ) (values : List ℚ) :
    Except Failure (List ℚ) :=
  if i < values.length then .ok (values.set i value) else .error .invalidAccess

/-- The loop that both `handle` have, from an index on. -/
def fillValues (scale : Nat → Except Failure ℚ) :
    Nat → List ℚ → List ℚ → Except Failure (List ℚ)
  | _, [], values => .ok values
  | i, accumulated :: rest, values =>
      match scale i with
      | .error failure => .error failure
      | .ok factor =>
          match setValue i (accumulated * factor) values with
          | .error failure => .error failure
          | .ok values => fillValues scale (i + 1) rest values

/-- `group::Writer`, with the members of the class of its metric event. -/
structure GroupWriter (η : Type) where
  collection : CounterCollection
  buffer : GroupCounterBuffer
  members : List η
  values : List ℚ

namespace GroupWriter

/-- The constructors of the reader, whose events can be opened, and of the
metric writer. -/
def start (registry : MetricRegistry ρ σ η γ θ) (sources : CounterSources)
    (scope : ExecutionScope) (s : MetricState ρ σ γ) :
    MetricState ρ σ γ × Except EventFailure (GroupWriter η) :=
  match s.composer.countersFor sources ⟨true, scope⟩ with
  | .error thrown => (s, .error thrown)
  | .ok (composer, collection) =>
      if collection.leader.isNone then
        (⟨composer, s.definitions⟩, .error (.failure (.runtimeError
          "Invalid Counter Collection: Counter collection has no leader!")))
      else
        match registry.perfMetricClass sources ⟨true, scope⟩
            ⟨composer, s.definitions⟩ with
        | (s, .error thrown) => (s, .error thrown)
        | (s, .ok metricClass) =>
            let members := registry.membersOf metricClass s
            (s, .ok
              { collection := collection
                buffer := .init (collection.counters.length + 1)
                members := members
                values := List.replicate members.length 0 })

def handle (w : GroupWriter η) (sample : GroupReadFormat) :
    Except Failure (GroupWriter η) := do
  let buffer ← w.buffer.read sample
  if w.values.length < buffer.accumulated.length then
    .error (.assertion "counter_buffer_.size() <= values.size()")
  else
    let values ← fillValues (fun i => w.collection.getScale i) 0
      buffer.accumulated w.values
    let index := buffer.accumulated.length
    let values ← setValue index buffer.enabled.toNat values
    let values ← setValue (index + 1) buffer.running.toNat values
    .ok { w with
      buffer := buffer
      values := values }

end GroupWriter

/-- `userspace::Writer`, with the members of the class of its metric event. -/
structure UserspaceWriter (η : Type) where
  collection : CounterCollection
  buffer : UserspaceCounterBuffer
  members : List η
  values : List ℚ

namespace UserspaceWriter

/-- The constructors of the reader, whose events can be opened, and of the
metric writer. -/
def start (registry : MetricRegistry ρ σ η γ θ) (sources : CounterSources)
    (scope : ExecutionScope) (s : MetricState ρ σ γ) :
    MetricState ρ σ γ × Except EventFailure (UserspaceWriter η) :=
  match s.composer.countersFor sources ⟨false, scope⟩ with
  | .error thrown => (s, .error thrown)
  | .ok (composer, collection) =>
      match registry.perfMetricClass sources ⟨false, scope⟩
          ⟨composer, s.definitions⟩ with
      | (s, .error thrown) => (s, .error thrown)
      | (s, .ok metricClass) =>
          let members := registry.membersOf metricClass s
          (s, .ok
            { collection := collection
              buffer := .init collection.counters.length
              members := members
              values := List.replicate members.length 0 })

/-- `handle`; index 0 of the scales is that of a leader. -/
def handle (w : UserspaceWriter η) (data : List UserspaceReadFormat) :
    Except Failure (UserspaceWriter η) := do
  let buffer ← w.buffer.read data
  if w.values.length < buffer.accumulated.length then
    .error (.assertion "counter_buffer_.size() <= values.size()")
  else
    let values ← fillValues (fun i => w.collection.getScale (i + 1)) 0
      buffer.accumulated w.values
    .ok { w with
      buffer := buffer
      values := values }

end UserspaceWriter

end Lo2s
