import Lo2s.Foundation.FiniteMap
import Lo2s.Types

/-!
# Perf events

An `EventAttr` is what `perf_event_open` is asked for, with the CPUs and the
modes in which the kernel has agreed to it.  The constructors clear the
attributes and fill in what describes the event.
-/

namespace Lo2s

open Foundation

/-- `perf_event_attr`: what the constructors of an event set. -/
structure PerfEventAttr where
  type : UInt32
  config : UInt64
  config1 : UInt64
  readFormat : UInt64
  excludeKernel : Bool
  deriving DecidableEq, Repr

inductive Availability where
  | unavailable
  | systemMode
  | processMode
  | universal
  deriving DecidableEq, Repr

/-- `EventAttr`; `cpus` is `cpus_` in ascending order. -/
structure EventAttr where
  attr : PerfEventAttr
  name : String
  cpus : List Int64
  availability : Availability
  deriving DecidableEq, Repr

/-- Which events the kernel opens in a scope, and the CPUs of the topology. -/
structure PerfSystem where
  canOpen : PerfEventAttr → ExecutionScope → Bool
  cpus : List Int64

/-- `PERF_TYPE_HARDWARE` and so on. -/
def perfTypeHardware : UInt32 := 0
def perfTypeSoftware : UInt32 := 1
def perfTypeHwCache : UInt32 := 3
def perfTypeRaw : UInt32 := 4

/-- What an event is asked for with: the fields a description determines. -/
structure EventConfig where
  type : UInt32
  config : UInt64
  config1 : UInt64
  deriving DecidableEq, Repr

/-- Insertion into a `std::set<Cpu>`. -/
def insertCpu (cpu : Int64) : List Int64 → List Int64
  | [] => [cpu]
  | first :: rest =>
      if cpu < first then cpu :: first :: rest
      else if cpu = first then first :: rest
      else first :: insertCpu cpu rest

def cpuSet (cpus : List Int64) : List Int64 := cpus.foldr insertCpu []

namespace EventAttr

/-- The constructor: `attr_` is cleared first. -/
def init (name : String) (config : EventConfig) : EventAttr where
  attr := ⟨config.type, config.config, config.config1, 0, false⟩
  name := name
  cpus := []
  availability := .unavailable

def getCpuSetFor (system : PerfSystem) (ev : EventAttr) : List Int64 :=
  cpuSet (system.cpus.filter fun cpu => system.canOpen ev.attr (.cpu cpu))

/-- `*supported_cpus().begin()`; an empty set has no first element. -/
def firstCpu (ev : EventAttr) : Except Failure Int64 :=
  match ev.cpus with
  | [] => .error .invalidAccess
  | cpu :: _ => .ok cpu

def updateAvailability (system : PerfSystem) (ev : EventAttr) :
    Except Failure EventAttr :=
  let proc := system.canOpen ev.attr (.thread ⟨0⟩)
  match ev.firstCpu with
  | .error failure => .error failure
  | .ok cpu =>
      let system := system.canOpen ev.attr (.cpu cpu)
      .ok { ev with
        availability :=
          if !proc && !system then .unavailable
          else if proc && !system then .processMode
          else if !proc && system then .systemMode
          else .universal }

/-- The event after `event_is_openable`, which tries it once more without the
kernel. -/
def eventIsOpenable (system : PerfSystem) (ev : EventAttr) :
    Except Failure EventAttr :=
  match ev.updateAvailability system with
  | .error failure => .error failure
  | .ok ev =>
      if ev.availability = .unavailable then
        { ev with attr.excludeKernel := true }.updateAvailability system
      else .ok ev

/-- What `event_is_openable` returns. -/
def isOpenable (ev : EventAttr) : Bool := ev.availability ≠ .unavailable

/-- `PredefinedEventAttr`, which does not look at what `event_is_openable`
returns. -/
def predefined (system : PerfSystem) (name : String) (config : EventConfig)
    (cpus : List Int64) : Except Failure EventAttr :=
  let ev := init name config
  { ev with cpus := if cpus.isEmpty then ev.getCpuSetFor system else cpus
    }.eventIsOpenable system

/-- `RawEventAttr`, of the number in the name. -/
def raw (system : PerfSystem) (name : String) (config : UInt64) :
    Except Failure EventAttr :=
  let ev := init name ⟨perfTypeRaw, config, 0⟩
  { ev with cpus := ev.getCpuSetFor system }.eventIsOpenable system

def isAvailableIn (scope : ExecutionScope) (ev : EventAttr) : Bool :=
  if ev.availability = .unavailable then false
  else
    match scope with
    | .cpu cpu => ev.availability ≠ .processMode &&
        (ev.cpus.isEmpty || ev.cpus.contains cpu)
    | _ => ev.availability ≠ .systemMode

def setReadFormat (readFormat : UInt64) (ev : EventAttr) : EventAttr :=
  { ev with attr.readFormat := readFormat }

section

variable {system : PerfSystem} {ev result : EventAttr}

theorem updateAvailability_sets
    (updated : ev.updateAvailability system = .ok result) :
    result = { ev with availability := result.availability } := by
  unfold updateAvailability at updated
  cases first : ev.firstCpu with
  | error failure =>
      rw [first] at updated
      cases updated
  | ok cpu =>
      rw [first] at updated
      cases updated
      rfl

theorem readFormat_eventIsOpenable
    (opened : ev.eventIsOpenable system = .ok result) :
    result.attr.readFormat = ev.attr.readFormat := by
  unfold eventIsOpenable at opened
  cases updated : ev.updateAvailability system with
  | error failure =>
      rw [updated] at opened
      cases opened
  | ok once =>
      rw [updated] at opened
      have first := updateAvailability_sets updated
      simp only at opened
      split_ifs at opened
      · rw [updateAvailability_sets opened, first]
      · cases opened
        rw [first]

theorem readFormat_predefined {name : String} {config : EventConfig}
    {cpus : List Int64}
    (constructed : predefined system name config cpus = .ok result) :
    result.attr.readFormat = 0 :=
  readFormat_eventIsOpenable constructed

theorem readFormat_raw {name : String} {config : UInt64}
    (constructed : raw system name config = .ok result) :
    result.attr.readFormat = 0 :=
  readFormat_eventIsOpenable constructed

end

end EventAttr

end Lo2s
