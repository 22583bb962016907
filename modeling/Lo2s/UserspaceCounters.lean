import Lo2s.EventAvailability
import Lo2s.EventLookup

/-!
# Counters that are read from user space

The composer looks the configured counters up, and the reader of a scope opens
those that are available there.  What the kernel answers to `read` depends on
the read format the event was opened with.  No constructor of an event sets
one, so all the kernel ever writes is the value; the two times that are used
with it are what the memory held before.
-/

namespace Lo2s

open Foundation

/-- `PERF_FORMAT_*`. -/
def perfFormatTotalTimeEnabled : UInt64 := 1
def perfFormatTotalTimeRunning : UInt64 := 2
def perfFormatId : UInt64 := 4
def perfFormatGroup : UInt64 := 8
def perfFormatLost : UInt64 := 16

/-- A counter in the kernel. -/
structure CounterState where
  value : UInt64
  timeEnabled : UInt64
  timeRunning : UInt64
  id : UInt64
  lost : UInt64
  deriving DecidableEq, Repr

/-- The words of a field that is there only with its flag. -/
def flagged (readFormat flag word : UInt64) : List UInt64 :=
  if readFormat &&& flag ≠ 0 then [word] else []

/-- What `read` is documented to write for an event that has no siblings. -/
def readWords (readFormat : UInt64) (state : CounterState) : List UInt64 :=
  let times := flagged readFormat perfFormatTotalTimeEnabled state.timeEnabled ++
    flagged readFormat perfFormatTotalTimeRunning state.timeRunning
  let marks := flagged readFormat perfFormatId state.id ++
    flagged readFormat perfFormatLost state.lost
  if readFormat &&& perfFormatGroup ≠ 0 then 1 :: times ++ state.value :: marks
  else state.value :: times ++ marks

structure UserspaceReadFormat where
  value : UInt64
  timeEnabled : UInt64
  timeRunning : UInt64
  deriving DecidableEq, Repr

namespace UserspaceReadFormat

/-- The first words of the memory of `val` are overwritten. -/
def overwrite (words : List UInt64) (val : UserspaceReadFormat) :
    UserspaceReadFormat where
  value := words.getD 0 val.value
  timeEnabled := words.getD 1 val.timeEnabled
  timeRunning := words.getD 2 val.timeRunning

/-- The counter as the kernel has it. -/
def ofState (state : CounterState) : UserspaceReadFormat :=
  ⟨state.value, state.timeEnabled, state.timeRunning⟩

end UserspaceReadFormat

/-- `ENOSPC`, and `EINVAL` for whatever `perf_event_open` objects to. -/
def enospc : Int32 := 28
def einval : Int32 := 22

/-- `EventGuard::read<UserspaceReadFormat>`; `val` is not initialised. -/
def readCounter (attr : PerfEventAttr) (state : CounterState)
    (val : UserspaceReadFormat) : Except Int32 UserspaceReadFormat :=
  let words := readWords attr.readFormat state
  if 24 < 8 * words.length then .error enospc else .ok (val.overwrite words)

/-- A call of `Reader::read`: the counters in the kernel, by their index, and
what the memory of `val` holds. -/
structure CounterReading where
  states : Nat → CounterState
  memory : Nat → UserspaceReadFormat

/-- `userspace::Reader`, without the buffer for the differences. -/
structure UserspaceReader where
  counters : List PerfEventAttr
  data : List UserspaceReadFormat

namespace UserspaceReader

/-- The constructor, which opens the counters. -/
def start (system : PerfSystem) (scope : ExecutionScope)
    (counters : List EventAttr) : Except Int32 UserspaceReader :=
  if counters.all fun ev => system.canOpen ev.attr scope then
    .ok
      { counters := counters.map (·.attr)
        data := counters.map fun _ => ⟨0, 0, 0⟩ }
  else .error einval

/-- The loop of `read`, from an index on. -/
def readFrom (reading : CounterReading) :
    Nat → List PerfEventAttr → Except Int32 (List UserspaceReadFormat)
  | _, [] => .ok []
  | i, attr :: counters =>
      match readCounter attr (reading.states i) (reading.memory i) with
      | .error code => .error code
      | .ok val =>
          match readFrom reading (i + 1) counters with
          | .error code => .error code
          | .ok data => .ok (val :: data)

/-- `read`, up to what is made of the data. -/
def read (u : UserspaceReader) (reading : CounterReading) :
    Except Int32 UserspaceReader :=
  match readFrom reading 0 u.counters with
  | .error code => .error code
  | .ok data => .ok { u with data := data }

end UserspaceReader

/-- `EventComposer`, as far as these counters are concerned. -/
structure EventComposer where
  resolver : EventResolver
  userspaceCounters : Option (List EventAttr)

namespace EventComposer

/-- A composer that has collected nothing so far. -/
def start (resolver : EventResolver) : EventComposer := ⟨resolver, none⟩

/-- The loop of `emplace_userspace_counters`, which leaves out what is
unknown. -/
def collectCounters :
    List String → EventResolver →
      EventResolver × Except EventFailure (List EventAttr)
  | [], r => (r, .ok [])
  | ev :: names, r =>
      match r.getEventByName ev with
      | (r, .ok event) =>
          match collectCounters names r with
          | (r, .ok counters) => (r, .ok (event :: counters))
          | (r, .error thrown) => (r, .error thrown)
      | (r, .error (.invalidEvent _)) => collectCounters names r
      | (r, .error thrown) => (r, .error thrown)

def emplaceUserspaceCounters (names : List String) (c : EventComposer) :
    Except EventFailure EventComposer :=
  match c.userspaceCounters with
  | some _ => .ok c
  | none =>
      match collectCounters names c.resolver with
      | (r, .ok counters) => .ok ⟨r, some counters⟩
      | (_, .error thrown) => .error thrown

def userspaceCountersFor (names : List String) (scope : ExecutionScope)
    (c : EventComposer) : Except EventFailure (EventComposer × List EventAttr) :=
  match c.emplaceUserspaceCounters names with
  | .error thrown => .error thrown
  | .ok c => .ok (c,
      (c.userspaceCounters.getD []).filter fun ev => ev.isAvailableIn scope)

end EventComposer

namespace EventSources

variable {sources : EventSources} {name : String} {event : EventAttr}

theorem readFormat_constructed {made : Except Failure EventAttr}
    (plain : ∀ ev : EventAttr, made = .ok ev → ev.attr.readFormat = 0)
    (read : constructed made = .ok event) : event.attr.readFormat = 0 := by
  cases made with
  | error failure => cases read
  | ok ev =>
      cases read
      exact plain _ rfl

theorem readFormat_rawEvent {digits : List Nat}
    (read : sources.rawEvent name digits = .ok event) :
    event.attr.readFormat = 0 :=
  readFormat_constructed (fun _ => EventAttr.readFormat_raw) read

theorem readFormat_pmuReadEvent
    (read : sources.pmuReadEvent name = .ok event) :
    event.attr.readFormat = 0 := by
  unfold pmuReadEvent at read
  split at read
  · cases read
  · dsimp only at read
    split at read
    · cases read
    · exact readFormat_constructed (fun _ => EventAttr.readFormat_predefined)
        read

theorem readFormat_sysfsEvent (read : sources.sysfsEvent name = .ok event) :
    event.attr.readFormat = 0 := by
  unfold sysfsEvent at read
  split at read
  · cases read
  · dsimp only at read
    split at read
    · cases read
    · next opened =>
        split_ifs at read
        cases read
        exact EventAttr.readFormat_eventIsOpenable opened

theorem readFormat_pfmEvent
    (found : sources.pfmEvent? name = some (.ok event)) :
    event.attr.readFormat = 0 := by
  obtain ⟨config, _, made⟩ := Option.map_eq_some_iff.mp found
  exact EventAttr.readFormat_predefined made

theorem readFormat_offered (offered : sources.offered? name = some event) :
    event.attr.readFormat = 0 := by
  unfold offered? at offered
  split at offered
  · split at offered
    · cases offered
    · cases offered
    · next raw _ =>
        cases offered
        exact readFormat_rawEvent raw
  · split at offered
    · next made found =>
        cases made with
        | error failure => cases offered
        | ok other =>
            cases offered
            exact readFormat_pfmEvent found
    · split at offered
      · next read =>
          cases offered
          exact readFormat_pmuReadEvent read
      · cases offered
      · cases files : sources.sysfsEvent name with
        | error _ =>
            rw [files] at offered
            cases offered
        | ok other =>
            rw [files] at offered
            cases offered
            exact readFormat_sysfsEvent files

end EventSources

/-- No event in the map has a read format. -/
def EventResolver.Plain (r : EventResolver) : Prop :=
  ∀ name event, r.eventMap.lookup name = some (some event) →
    event.attr.readFormat = 0

namespace EventResolver.Plain

variable {r : EventResolver}

theorem remember (plain : r.Plain) (name : String) {event : Option EventAttr}
    (plainEvent : ∀ found ∈ event, found.attr.readFormat = 0) :
    (r.remember name event).Plain := by
  intro other found there
  rw [lookup_remember] at there
  split_ifs at there with same
  · rw [Option.some.injEq] at there
    cases old : r.eventMap.lookup name with
    | none =>
        rw [old, Option.getD_none] at there
        exact plainEvent found there
    | some entry =>
        rw [old, Option.getD_some] at there
        exact plain name found (there ▸ old)
  · exact plain other found there

theorem init {sources : EventSources}
    (made : EventResolver.init sources = .ok r) : r.Plain := by
  refine invariant_of_run (fun _ reached => reached.Plain)
    (fun _ _ there => nomatch there) ?_ made
  intro earlier reached event next plain stepped
  unfold emplacePredefined at stepped
  split at stepped
  · cases stepped
  · next constructed =>
      cases stepped
      apply plain.remember
      rintro found ⟨⟩
      exact EventAttr.readFormat_predefined constructed

theorem getEventByName (plain : r.Plain) (name : String) :
    (r.getEventByName name).1.Plain ∧
      ∀ event, (r.getEventByName name).2 = .ok event →
        event.attr.readFormat = 0 := by
  by_cases known : r.Known name
  · unfold EventResolver.getEventByName
    cases found : r.eventMap.lookup name with
    | some entry =>
        cases entry with
        | some old =>
            exact ⟨plain, fun event same =>
              plain name event (Except.ok.inj same ▸ found)⟩
        | none => exact ⟨plain, fun event same => nomatch same⟩
    | none =>
        obtain ⟨event, offered⟩ := Option.ne_none_iff_exists'.mp
          (known.resolve_left (not_not_intro found))
        have plainEvent := EventSources.readFormat_offered offered
        simp only [cacheEvent_offered found offered]
        refine ⟨plain.remember name ?_, ?_⟩
        · rintro other ⟨⟩
          exact plainEvent
        · rintro other ⟨⟩
          exact plainEvent
  · obtain ⟨next, thrown, result, _, kept, _⟩ := lookups_unknown known
    rw [result]
    refine ⟨?_, fun event same => nomatch same⟩
    rcases kept with rfl | ⟨entry, rfl, raw⟩
    · exact plain
    · refine plain.remember name fun found there => ?_
      obtain ⟨digits, read⟩ := raw found there
      exact EventSources.readFormat_rawEvent read

theorem hasEvent (plain : r.Plain) (name : String) :
    (r.hasEvent name).1.Plain :=
  r.hasEvent_resolver name ▸ (plain.getEventByName name).1

theorem after (plain : r.Plain) (calls : List EventLookup) :
    (r.after calls).Plain := by
  induction calls generalizing r with
  | nil => exact plain
  | cons call calls induction =>
      apply induction
      cases call with
      | hasEvent name => exact plain.hasEvent name
      | getEventByName name => exact (plain.getEventByName name).1

theorem collectCounters (plain : r.Plain) {names : List String}
    {counters : List EventAttr}
    (collected : (EventComposer.collectCounters names r).2 = .ok counters) :
    ∀ ev ∈ counters, ev.attr.readFormat = 0 := by
  induction names generalizing r counters with
  | nil =>
      cases collected
      exact fun _ member => nomatch member
  | cons name names induction =>
      obtain ⟨nextPlain, plainEvent⟩ := plain.getEventByName name
      rw [EventComposer.collectCounters] at collected
      rcases found : r.getEventByName name with ⟨next, thrown | event⟩
      · rw [found] at collected nextPlain
        cases thrown with
        | invalidEvent what => exact induction nextPlain collected
        | failure failure => cases collected
      · rw [found] at collected nextPlain plainEvent
        dsimp only at collected
        rcases rest : EventComposer.collectCounters names next with
          ⟨last, thrown | later⟩
        · rw [rest] at collected
          cases collected
        · rw [rest] at collected
          cases collected
          intro ev member
          rcases List.mem_cons.mp member with rfl | inside
          · exact plainEvent ev rfl
          · exact induction nextPlain (by rw [rest]) ev inside

theorem userspaceCountersFor (plain : r.Plain) {names : List String}
    {scope : ExecutionScope} {composer : EventComposer}
    {counters : List EventAttr}
    (collected : (EventComposer.start r).userspaceCountersFor names scope =
      .ok (composer, counters)) :
    ∀ ev ∈ counters, ev.attr.readFormat = 0 := by
  unfold EventComposer.userspaceCountersFor
    EventComposer.emplaceUserspaceCounters EventComposer.start at collected
  rcases loop : EventComposer.collectCounters names r with ⟨next, _ | all⟩
  · rw [loop] at collected
    cases collected
  · rw [loop] at collected
    cases collected
    have plainAll := plain.collectCounters (by rw [loop])
    exact fun ev member => plainAll ev (List.mem_of_mem_filter member)

end EventResolver.Plain

namespace UserspaceReader

/-- The data of a reading are what the kernel has. -/
def Decoded (u : UserspaceReader) (reading : CounterReading) : Prop :=
  u.data = (List.range u.counters.length).map fun i =>
    .ofState (reading.states i)

/-- The answers of the kernel have filled all three fields of each counter. -/
def Written (u : UserspaceReader) (reading : CounterReading) : Prop :=
  ∀ i attr, u.counters[i]? = some attr →
    3 ≤ (readWords attr.readFormat (reading.states i)).length

/-- The counters have been opened without a read format. -/
def Plain (u : UserspaceReader) : Prop :=
  ∀ attr ∈ u.counters, attr.readFormat = 0

theorem Plain.written_iff {u : UserspaceReader} (plain : u.Plain)
    (reading : CounterReading) : u.Written reading ↔ u.counters = [] := by
  constructor
  · intro written
    cases counters : u.counters with
    | nil => rfl
    | cons attr rest =>
        have three := written 0 attr (by rw [counters]; rfl)
        rw [plain attr (by rw [counters]; exact List.mem_cons_self)] at three
        exact absurd three (by simp [readWords, flagged])
  · intro none i attr there
    rw [none] at there
    cases there

theorem counters_of_read {u next : UserspaceReader} {reading : CounterReading}
    (read : u.read reading = .ok next) : next.counters = u.counters := by
  unfold UserspaceReader.read at read
  split at read
  · cases read
  · cases read
    rfl

theorem read_nil {u : UserspaceReader} (none : u.counters = [])
    (reading : CounterReading) : u.read reading = .ok { u with data := [] } := by
  unfold UserspaceReader.read
  rw [none]
  rfl

/-- A first reading is not decoded as the kernel has encoded it, unless nothing
is read. -/
theorem counters_eq_nil_of_decoded {reader : UserspaceReader}
    (plain : reader.Plain) {first : CounterReading} {rest : List CounterReading}
    (always : Always read reader
      (fun earlier u => ∀ reading ∈ earlier.getLast?,
        u.Decoded reading ∧ u.Written reading) (first :: rest)) :
    reader.counters = [] := by
  obtain ⟨u, ran, holds⟩ := always [first] (by simp)
  obtain ⟨same, started, read⟩ := run_concat_eq_ok_iff.mp
    (show run UserspaceReader.read reader ([] ++ [first]) = .ok u from ran)
  cases started
  have same := counters_of_read read
  have plainNext : u.Plain := fun attr member => plain attr (same ▸ member)
  have none := (plainNext.written_iff first).mp (holds first rfl).2
  rwa [same] at none

theorem decoded_of_counters_eq_nil {reader : UserspaceReader}
    {readings : List CounterReading}
    (none : ∀ reading ∈ readings, reader.counters = []) :
    Always read reader
      (fun earlier u => ∀ reading ∈ earlier.getLast?,
        u.Decoded reading ∧ u.Written reading) readings := by
  have along : Always read reader (fun earlier u =>
      u.counters = reader.counters ∧ ∀ reading ∈ earlier.getLast?,
        u.Decoded reading ∧ u.Written reading) readings := by
    refine keeps_along _ ⟨rfl, fun _ absent => nomatch absent⟩ ?_
    intro earlier u reading within _ holds
    have noCounters : u.counters = [] := by
      rw [holds.1]
      exact none reading (within.subset
        (List.mem_append_right _ List.mem_cons_self))
    refine ⟨{ u with data := [] }, read_nil noCounters reading, holds.1, ?_⟩
    rw [List.getLast?_concat]
    rintro _ ⟨⟩
    have plainNext : u.Plain := fun attr member =>
      absurd (noCounters ▸ member) List.not_mem_nil
    refine ⟨?_, (plainNext.written_iff reading).mpr noCounters⟩
    rw [Decoded, noCounters]
    rfl
  intro earlier within
  obtain ⟨u, ran, _, holds⟩ := along earlier within
  exact ⟨u, ran, holds⟩

/-- The readings of a scope are decoded as the kernel encodes them exactly if
there is none, or there is no counter to be read. -/
theorem decoded_iff (sources : EventSources) (calls : List EventLookup)
    (names : List String) (scope : ExecutionScope) {resolver : EventResolver}
    {composer : EventComposer} {counters : List EventAttr}
    {reader : UserspaceReader}
    (made : EventResolver.init sources = .ok resolver)
    (collected : (EventComposer.start (resolver.after calls)
      ).userspaceCountersFor names scope = .ok (composer, counters))
    (opened : start sources.system scope counters = .ok reader)
    (readings : List CounterReading) :
    Always read reader
        (fun earlier u => ∀ reading ∈ earlier.getLast?,
          u.Decoded reading ∧ u.Written reading)
        readings ↔
      readings = [] ∨ counters = [] := by
  have plainCounters : ∀ ev ∈ counters, ev.attr.readFormat = 0 :=
    ((EventResolver.Plain.init made).after calls).userspaceCountersFor
      collected
  have attrs : reader.counters = counters.map (·.attr) := by
    unfold UserspaceReader.start at opened
    split_ifs at opened
    cases opened
    rfl
  have plain : reader.Plain := by
    intro attr member
    rw [attrs] at member
    obtain ⟨ev, inside, rfl⟩ := List.mem_map.mp member
    exact plainCounters ev inside
  constructor
  · intro always
    cases readings with
    | nil => exact .inl rfl
    | cons first rest =>
        have none := counters_eq_nil_of_decoded plain always
        rw [attrs] at none
        exact .inr (List.map_eq_nil_iff.mp none)
  · intro nothing
    apply decoded_of_counters_eq_nil
    intro reading member
    rcases nothing with rfl | rfl
    · cases member
    · exact attrs

/-- A system with one event of a PMU, which can be opened everywhere. -/
def oneEvent : EventSources where
  system := ⟨fun _ _ => true, [0]⟩
  pfm := none
  pmus := []
  sysfs name :=
    if name = "cpu/cycles/" then .ok ⟨⟨4, 60, 0⟩, []⟩
    else .error (.invalid ("unknown PMU '" ++ name ++ "'"))

def cycles : EventAttr where
  attr := ⟨4, 60, 0, 0, false⟩
  name := "cpu/cycles/"
  cpus := [0]
  availability := .universal

theorem collected_cycles :
    ∃ resolver composer, EventResolver.init oneEvent = .ok resolver ∧
      (EventComposer.start resolver).userspaceCountersFor ["cpu/cycles/"]
        (.thread ⟨0⟩) = .ok (composer, [cycles]) := by
  obtain ⟨resolver, made⟩ := EventResolver.exists_init
    (show 0 ∈ oneEvent.system.cpus from List.mem_cons_self) fun _ => rfl
  obtain ⟨sources, names⟩ := EventResolver.init_spec made
  have new : resolver.eventMap.lookup "cpu/cycles/" = none :=
    names _ (by decide +kernel)
  have offered : resolver.sources.offered? "cpu/cycles/" = some cycles := by
    rw [sources]
    rfl
  have found : resolver.getEventByName "cpu/cycles/" =
      (resolver.remember "cpu/cycles/" (some cycles), .ok cycles) := by
    rw [EventResolver.getEventByName, new]
    exact EventResolver.cacheEvent_offered new offered
  refine ⟨resolver, ⟨resolver.remember "cpu/cycles/" (some cycles),
    some [cycles]⟩, made, ?_⟩
  simp only [EventComposer.userspaceCountersFor, EventComposer.start,
    EventComposer.emplaceUserspaceCounters, EventComposer.collectCounters, found]
  rfl

/-- A counter that has been running for five ticks, and cleared memory. -/
def fiveTicks : CounterReading where
  states _ := ⟨7, 5, 5, 0, 0⟩
  memory _ := ⟨0, 0, 0⟩

/-- The reader of the event. -/
def cyclesReader : UserspaceReader := ⟨[cycles.attr], [⟨0, 0, 0⟩]⟩

/-- The times that the memory happens to hold have not been read. -/
theorem decoded_iff_cycles :
    ¬ Always read cyclesReader
      (fun earlier u => ∀ reading ∈ earlier.getLast?,
        u.Decoded reading ∧ u.Written reading)
      [{ fiveTicks with memory := fun _ => ⟨0, 5, 5⟩ }] := by
  intro always
  obtain ⟨resolver, composer, made, collected⟩ := collected_cycles
  have nothing := (decoded_iff oneEvent [] ["cpu/cycles/"] (.thread ⟨0⟩) made
    collected rfl _).mp always
  simp at nothing

/-- The times stay what the memory held. -/
theorem times_not_read :
    ∃ resolver composer next, EventResolver.init oneEvent = .ok resolver ∧
      (EventComposer.start resolver).userspaceCountersFor ["cpu/cycles/"]
        (.thread ⟨0⟩) = .ok (composer, [cycles]) ∧
      start oneEvent.system (.thread ⟨0⟩) [cycles] = .ok cyclesReader ∧
      cyclesReader.read fiveTicks = .ok next ∧ next.data = [⟨7, 0, 0⟩] ∧
      ¬ next.Decoded fiveTicks := by
  obtain ⟨resolver, composer, made, collected⟩ := collected_cycles
  refine ⟨resolver, composer, _, made, collected, rfl, rfl, rfl, ?_⟩
  unfold Decoded
  decide

end UserspaceReader

end Lo2s
