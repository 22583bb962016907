import Lo2s.EventAttr
import Lo2s.Foundation.Run

/-!
# Looking up events by name

`EventResolver` keeps what it has found for a name, also that it has found
nothing.  A name it does not know yet is tried as a raw event, and then with
libpfm, the table of PMU events and the files of sysfs.
-/

namespace Lo2s

open Foundation

/-- What a lookup throws: an `EventAttr::InvalidEvent`, or something else. -/
inductive EventFailure where
  | invalidEvent (what : String)
  | failure (failure : Failure)
  deriving DecidableEq, Repr

/-- The constructor of `InvalidEvent`. -/
def EventFailure.invalid (eventDescription : String) : EventFailure :=
  .invalidEvent ("Invalid event: " ++ eventDescription)

/-- A `pmu_instance`: an entry is a `pmu_event`, of which `gen_attr_for_event`
makes attributes or not. -/
structure PmuInstance where
  name : String
  cpus : List Int64
  entries : List (String × Option EventConfig)

/-- What the files of a PMU say about an event; `cpuids` is empty where neither
`cpus` nor `cpumask` lists any. -/
structure SysfsEvent where
  config : EventConfig
  cpuids : List Int64

/-- What names are looked up in.  `pfm` is there if libpfm is used, and is
`pfm_get_os_event_encoding`; `sysfs` is what reading the files of an event
yields, or the exception it ends with. -/
structure EventSources where
  system : PerfSystem
  pfm : Option (String → Option EventConfig)
  pmus : List PmuInstance
  sysfs : String → Except EventFailure SysfsEvent

/-- `isxdigit` and the value of the digit. -/
def xdigit? (c : Char) : Option Nat :=
  if '0' ≤ c ∧ c ≤ '9' then some (c.toNat - '0'.toNat)
  else if 'a' ≤ c ∧ c ≤ 'f' then some (c.toNat - 'a'.toNat + 10)
  else if 'A' ≤ c ∧ c ≤ 'F' then some (c.toNat - 'A'.toNat + 10)
  else none

/-- The digits of `r[[:xdigit:]]{1,8}`. -/
def rawDigits? (name : String) : Option (List Nat) :=
  match name.toList with
  | 'r' :: digits =>
      if 1 ≤ digits.length ∧ digits.length ≤ 8 then digits.mapM xdigit?
      else none
  | _ => none

/-- Up to the last `::` of a text, and behind it. -/
def splitAtLastColons : List Char → Option (List Char × List Char)
  | [] => none
  | c :: rest =>
      match splitAtLastColons rest with
      | some (inst, ev) => some (c :: inst, ev)
      | none =>
          match c, rest with
          | ':', ':' :: ev => some ([], ev)
          | _, _ => none

/-- `(.*)::(.*)`, where a dot is no line terminator. -/
def instAndEv? (evDesc : String) : Option (String × String) :=
  if evDesc.toList.any fun c => c = '\n' || c = '\r' then none
  else (splitAtLastColons evDesc.toList).map
    fun (inst, ev) => (String.ofList inst, String.ofList ev)

/-- The first event of that name in an instance of that name. -/
def findPmuEvent (inst ev : String) : List PmuInstance →
    Option (PmuInstance × String × Option EventConfig)
  | [] => none
  | cur :: rest =>
      if cur.name = inst then
        match cur.entries.find? (·.1 = ev) with
        | some entry => some (cur, entry)
        | none => findPmuEvent inst ev rest
      else findPmuEvent inst ev rest

/-- What the constructor of an event ends with. -/
def constructed : Except Failure EventAttr → Except EventFailure EventAttr
  | .ok ev => .ok ev
  | .error failure => .error (.failure failure)

namespace EventSources

/-- `RawEventAttr`, of the number in the name. -/
def rawEvent (sources : EventSources) (name : String) (digits : List Nat) :
    Except EventFailure EventAttr :=
  let config := digits.foldl (fun value digit => 16 * value + digit) 0
  constructed (EventAttr.raw sources.system name (UInt64.ofNat config))

/-- `PFM4::pfm4_read_event`. -/
def pfm4ReadEvent (sources : EventSources)
    (encoding : String → Option EventConfig) (evDesc : String) :
    Except EventFailure EventAttr :=
  match encoding evDesc with
  | none => .error (.invalid "Could not read PFM event encoding")
  | some config =>
      constructed (EventAttr.predefined sources.system evDesc config [])

/-- `PMUEvents::read_event`. -/
def pmuReadEvent (sources : EventSources) (evDesc : String) :
    Except EventFailure EventAttr :=
  match (instAndEv? evDesc).bind fun (inst, ev) =>
      findPmuEvent inst ev sources.pmus with
  | none => .error (.invalid ("No event named " ++ evDesc ++ "!"))
  | some (inst, ev, config) =>
      let evName := inst.name ++ "::" ++ ev
      match config with
      | none => .error (.invalid
          ("Can not get perf_event_attr for pmu-events event " ++ evName ++
            "!"))
      | some config => constructed (EventAttr.predefined sources.system evName
          config (cpuSet inst.cpus))

/-- `SysfsEventAttr`.  Where no CPUs are listed, they are tried before the
configuration is known. -/
def sysfsEvent (sources : EventSources) (evName : String) :
    Except EventFailure EventAttr :=
  match sources.sysfs evName with
  | .error thrown => .error thrown
  | .ok event =>
      let untold := EventAttr.init evName ⟨event.config.type, 0, 0⟩
      let ev := EventAttr.init evName event.config
      let ev := { ev with
        cpus :=
          if event.cpuids.isEmpty then untold.getCpuSetFor sources.system
          else cpuSet event.cpuids }
      match ev.eventIsOpenable sources.system with
      | .error failure => .error (.failure failure)
      | .ok ev =>
          if ev.isOpenable then .ok ev
          else .error (.invalid
            "Event can not be opened in process- or system-monitoring-mode")

end EventSources

/-- `predef_events`, with all that newer kernels have. -/
def predefEvents : List (String × EventConfig) :=
  [("cpu-cycles", ⟨perfTypeHardware, 0, 0⟩),
    ("instructions", ⟨perfTypeHardware, 1, 0⟩),
    ("cache-references", ⟨perfTypeHardware, 2, 0⟩),
    ("cache-misses", ⟨perfTypeHardware, 3, 0⟩),
    ("branch-instructions", ⟨perfTypeHardware, 4, 0⟩),
    ("branch-misses", ⟨perfTypeHardware, 5, 0⟩),
    ("bus-cycles", ⟨perfTypeHardware, 6, 0⟩),
    ("stalled-cycles-frontend", ⟨perfTypeHardware, 7, 0⟩),
    ("stalled-cycles-backend", ⟨perfTypeHardware, 8, 0⟩),
    ("ref-cycles", ⟨perfTypeHardware, 9, 0⟩),
    ("cpu-clock", ⟨perfTypeSoftware, 0, 0⟩),
    ("task-clock", ⟨perfTypeSoftware, 1, 0⟩),
    ("page-faults", ⟨perfTypeSoftware, 2, 0⟩),
    ("context-switches", ⟨perfTypeSoftware, 3, 0⟩),
    ("cpu-migrations", ⟨perfTypeSoftware, 4, 0⟩),
    ("minor-faults", ⟨perfTypeSoftware, 5, 0⟩),
    ("major-faults", ⟨perfTypeSoftware, 6, 0⟩),
    ("alignment-faults", ⟨perfTypeSoftware, 7, 0⟩),
    ("emulation-faults", ⟨perfTypeSoftware, 8, 0⟩),
    ("dummy", ⟨perfTypeSoftware, 9, 0⟩),
    ("bpf-output", ⟨perfTypeSoftware, 10, 0⟩),
    ("cgroup-switches", ⟨perfTypeSoftware, 11, 0⟩)]

def cacheNameTable : List (String × UInt64) :=
  [("L1-dcache", 0), ("L1-icache", 1), ("LLC", 2), ("dTLB", 3), ("iTLB", 4),
    ("branch", 5), ("node", 6)]

/-- `CACHE_OPERATION_TABLE`: the operation and the result. -/
def cacheOperationTable : List (String × UInt64 × UInt64) :=
  [("loads", 0, 0), ("stores", 1, 0), ("prefetches", 2, 0),
    ("load-misses", 0, 1), ("store-misses", 1, 1), ("prefetch-misses", 2, 1)]

def makeCacheConfig (cache op opResult : UInt64) : UInt64 :=
  cache ||| (op <<< 8) ||| (opResult <<< 16)

def cacheEvents : List (String × EventConfig) :=
  cacheNameTable.flatMap fun cache =>
    cacheOperationTable.map fun operation =>
      (cache.1 ++ "-" ++ operation.1,
        ⟨perfTypeHwCache,
          makeCacheConfig cache.2 operation.2.1 operation.2.2, 0⟩)

/-- `event_map_`; a name without an event has been looked up in vain. -/
abbrev EventMap := FiniteMap String (Option EventAttr)

/-- `EventResolver`, with what it looks names up in. -/
structure EventResolver where
  sources : EventSources
  eventMap : EventMap

namespace EventResolver

/-- `event_map_.emplace(name, event).first->second`. -/
def emplace (name : String) (event : EventAttr) (r : EventResolver) :
    EventResolver × Option EventAttr :=
  let eventMap := r.eventMap.insertIfNew name (some event)
  ({ r with eventMap := eventMap }, (eventMap.lookup name).getD none)

/-- One of the events of the constructor. -/
def emplacePredefined (r : EventResolver) (event : String × EventConfig) :
    Except Failure EventResolver :=
  match EventAttr.predefined r.sources.system event.1 event.2 [] with
  | .error failure => .error failure
  | .ok ev => .ok (r.emplace event.1 ev).1

/-- The constructor. -/
def init (sources : EventSources) : Except Failure EventResolver :=
  run emplacePredefined ⟨sources, ∅⟩ (predefEvents ++ cacheEvents)

/-- An event that is only tried: `InvalidEvent` is caught. -/
def tryEmplace (name : String) (event : Except EventFailure EventAttr)
    (res : Option EventAttr) (r : EventResolver) :
    Except EventFailure (EventResolver × Option EventAttr) :=
  match event with
  | .ok event => .ok (r.emplace name event)
  | .error (.invalidEvent _) => .ok (r, res)
  | .error thrown => .error thrown

/-- The first part of `cache_event`, a raw event. -/
def cacheRaw (name : String) (r : EventResolver) :
    Except EventFailure (EventResolver × Option EventAttr) :=
  match rawDigits? name with
  | some digits =>
      match r.sources.rawEvent name digits with
      | .error thrown => .error thrown
      | .ok event => .ok (r.emplace name event)
  | none => .ok (r, none)

/-- The second part, which is there if libpfm is used; what has been found is
read once more. -/
def cachePfm (name : String) (res : Option EventAttr) (r : EventResolver) :
    Except EventFailure (EventResolver × Option EventAttr) :=
  match r.sources.pfm with
  | none => .ok (r, res)
  | some encoding =>
      r.tryEmplace name (r.sources.pfm4ReadEvent encoding name) res

/-- The third part, the table of PMU events. -/
def cachePmu (name : String) (res : Option EventAttr) (r : EventResolver) :
    Except EventFailure (EventResolver × Option EventAttr) :=
  if res.isSome then .ok (r, res)
  else r.tryEmplace name (r.sources.pmuReadEvent name) none

/-- What `cache_event` throws where no source has the event. -/
def unparsable (name what : String) : EventFailure :=
  .failure (.runtimeError
    ("Could not parse '" ++ name ++ "' as a perf event: " ++ what))

/-- What it throws where the map has the name already. -/
def alreadyThere (name : String) : EventFailure :=
  .failure (.runtimeError ("Trying to cache_event '" ++ name ++
    "' event, but it already exists in the event map!. This is a bug, " ++
    "please report it to the developers!"))

/-- The last part: the files of sysfs, and what is made of it all.  A failure
is remembered, and thrown as a `std::runtime_error`. -/
def cacheSysfs (name : String) (res : Option EventAttr) (r : EventResolver) :
    EventResolver × Except EventFailure EventAttr :=
  match res with
  | some event => (r, .ok event)
  | none =>
      match r.sources.sysfsEvent name with
      | .ok event =>
          match r.emplace name event with
          | (r, some event) => (r, .ok event)
          | (r, none) => (r, .error (alreadyThere name))
      | .error (.invalidEvent what) =>
          ({ r with eventMap := r.eventMap.insertIfNew name none },
            .error (unparsable name what))
      | .error thrown => (r, .error thrown)

def cacheEvent (name : String) (r : EventResolver) :
    EventResolver × Except EventFailure EventAttr :=
  match r.cacheRaw name with
  | .error thrown => (r, .error thrown)
  | .ok (r, res) =>
      match r.cachePfm name res with
      | .error thrown => (r, .error thrown)
      | .ok (r, res) =>
          match r.cachePmu name res with
          | .error thrown => (r, .error thrown)
          | .ok (r, res) => r.cacheSysfs name res

def getEventByName (name : String) (r : EventResolver) :
    EventResolver × Except EventFailure EventAttr :=
  match r.eventMap.lookup name with
  | some (some event) => (r, .ok event)
  | some none =>
      (r, .error (.invalid ("The event '" ++ name ++ "' is not available")))
  | none => r.cacheEvent name

def hasEvent (name : String) (r : EventResolver) :
    EventResolver × Except EventFailure Bool :=
  match r.eventMap.lookup name with
  | some event => (r, .ok event.isSome)
  | none =>
      match r.cacheEvent name with
      | (r, .ok _) => (r, .ok true)
      | (r, .error (.invalidEvent _)) => (r, .ok false)
      | (r, .error thrown) => (r, .error thrown)

end EventResolver

end Lo2s
