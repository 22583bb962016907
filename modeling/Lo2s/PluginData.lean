import Lo2s.Types
import Mathlib.Data.List.Basic

/-!
# Data of metric plugins

Plugins are asked for their values when the measurement is over.  Of what they
return, the pairs within the recording interval are written; the trace keeps
the two ends of this interval, but only the end of the recording is ever set.
-/

namespace Lo2s

/-- What the trace knows of the recording; both times are those of a clock that
starts at zero. -/
structure TraceRecord where
  startingTime : TimePoint
  stoppingTime : TimePoint
  properties : List (String × String)

namespace TraceRecord

/-- The constructor leaves the times at their default. -/
def init : TraceRecord := ⟨0, 0, []⟩

/-- `begin_record`, with the text of the current system time; the time `now()`
would return is not used. -/
def beginRecord (_now : TimePoint) (systemTime : String) (r : TraceRecord) :
    TraceRecord :=
  { r with
    properties := r.properties ++ [("LO2S::STARTING_TIME", systemTime)] }

def endRecord (now : TimePoint) (r : TraceRecord) : TraceRecord :=
  { r with stoppingTime := now }

def recordFrom (r : TraceRecord) : TimePoint := r.startingTime

def recordTo (r : TraceRecord) : TimePoint := r.stoppingTime

end TraceRecord

/-- `wrapper::TimeValuePair`. -/
structure TimeValuePair where
  timestamp : UInt64
  value : UInt64
  deriving DecidableEq, Repr

/-- The timestamp as a `time_point`. -/
def TimeValuePair.time (tv : TimeValuePair) : TimePoint :=
  tv.timestamp.toInt64.toInt

/-- `Channel`, with the times and values of the metric events it has written;
`id` is -1 where `add_counter` has failed. -/
structure Channel where
  id : Int32
  name : String
  written : List (TimePoint × UInt64)

namespace Channel

def writeValue (tv : TimeValuePair) (c : Channel) : Channel :=
  { c with written := c.written ++ [(tv.time, tv.value)] }

/-- The inner loop of `fetch_data`. -/
def writeValues (start stop : TimePoint) :
    List TimeValuePair → Channel → Channel
  | [], c => c
  | tv :: tvs, c =>
      writeValues start stop tvs
        (if start ≤ tv.time ∧ tv.time ≤ stop then c.writeValue tv else c)

end Channel

/-- `wrapper::SynchronizationMode`, the modes that are used. -/
inductive SynchronizationMode where
  | start
  | stop
  deriving DecidableEq, Repr

/-- `Plugin`, with the calls of `synchronize`, which a plugin need not have. -/
structure Plugin where
  name : String
  channels : List Channel
  hasSynchronize : Bool
  synchronized : List SynchronizationMode

namespace Plugin

def synchronize (mode : SynchronizationMode) (p : Plugin) : Plugin :=
  if p.hasSynchronize then
    { p with synchronized := p.synchronized ++ [mode] }
  else p

def startRecording (p : Plugin) : Plugin := p.synchronize .start

def stopRecording (p : Plugin) : Plugin := p.synchronize .stop

/-- `fetch_data`.  `values c` is what `get_all_values` returns for the channel
at position `c`, which is asked for once. -/
def fetchData (start stop : TimePoint) (values : Nat → List TimeValuePair)
    (p : Plugin) : Plugin :=
  { p with
    channels := p.channels.mapIdx fun c channel =>
      if channel.id = -1 then channel
      else channel.writeValues start stop (values c) }

end Plugin

/-- `metric::plugin::Metrics`. -/
structure PluginMetrics where
  plugins : List Plugin
  running : Bool

namespace PluginMetrics

def start (m : PluginMetrics) : PluginMetrics :=
  ⟨m.plugins.map Plugin.startRecording, true⟩

/-- `stop`; that it goes backwards makes no difference to the plugins. -/
def stop (m : PluginMetrics) : PluginMetrics :=
  ⟨m.plugins.map Plugin.stopRecording, false⟩

/-- The destructor; `values` has the answers of each plugin. -/
def destroy (trace : TraceRecord) (values : Nat → Nat → List TimeValuePair)
    (m : PluginMetrics) : PluginMetrics :=
  let m := if m.running then m.stop else m
  { m with
    plugins := m.plugins.mapIdx fun p plugin =>
      plugin.fetchData trace.recordFrom trace.recordTo (values p) }

end PluginMetrics

/-- `MainMonitor`, as far as plugins are concerned. -/
structure MainMonitor where
  trace : TraceRecord
  metrics : PluginMetrics

namespace MainMonitor

/-- The constructor: the plugins have been loaded, and the recording begins at
`now`. -/
def init (plugins : List Plugin) (now : TimePoint) (systemTime : String) :
    MainMonitor where
  trace := TraceRecord.init.beginRecord now systemTime
  metrics := PluginMetrics.start ⟨plugins, false⟩

/-- The destructor, which ends the recording at `now`, and that of the metrics
after it. -/
def destroy (now : TimePoint) (values : Nat → Nat → List TimeValuePair)
    (m : MainMonitor) : MainMonitor :=
  let trace := m.trace.endRecord now
  ⟨trace, m.metrics.stop.destroy trace values⟩

end MainMonitor

/-- A pair within an interval. -/
def TimeValuePair.Inside (start stop : TimePoint) (tv : TimeValuePair) : Prop :=
  start ≤ tv.time ∧ tv.time ≤ stop

instance (start stop : TimePoint) (tv : TimeValuePair) :
    Decidable (tv.Inside start stop) :=
  inferInstanceAs (Decidable (_ ∧ _))

/-- The events for the pairs within an interval. -/
def eventsWithin (start stop : TimePoint) (tvs : List TimeValuePair) :
    List (TimePoint × UInt64) :=
  (tvs.filter fun tv => tv.Inside start stop).map fun tv => (tv.time, tv.value)

theorem Channel.writeValues_eq (start stop : TimePoint)
    (tvs : List TimeValuePair) (c : Channel) :
    c.writeValues start stop tvs =
      { c with written := c.written ++ eventsWithin start stop tvs } := by
  induction tvs generalizing c with
  | nil => simp [writeValues, eventsWithin]
  | cons tv tvs induction =>
      rw [writeValues, induction]
      by_cases inside : start ≤ tv.time ∧ tv.time ≤ stop
      · simp [eventsWithin, TimeValuePair.Inside, inside, writeValue]
      · simp only [if_neg inside]
        simp [eventsWithin, TimeValuePair.Inside, inside]

theorem TimeValuePair.event_injective :
    Function.Injective fun tv : TimeValuePair => (tv.time, tv.value) := by
  rintro ⟨leftTime, leftValue⟩ ⟨rightTime, rightValue⟩ same
  obtain ⟨times, values⟩ := Prod.mk.inj same
  have timestamps : leftTime = rightTime := by
    simpa using congrArg Int64.toUInt64 (Int64.toInt_inj.mp times)
  rw [timestamps, show leftValue = rightValue from values]

/-- The same pairs are within two intervals that end together if no pair is
between their starts. -/
theorem eventsWithin_eq_iff {start other stop : TimePoint}
    {tvs : List TimeValuePair} :
    eventsWithin start stop tvs = eventsWithin other stop tvs ↔
      ∀ tv ∈ tvs, tv.time ≤ stop → (start ≤ tv.time ↔ other ≤ tv.time) := by
  constructor
  · intro same tv member early
    have filtered := TimeValuePair.event_injective.list_map same
    have both : tv ∈ tvs.filter (fun tv => tv.Inside start stop) ↔
        tv ∈ tvs.filter fun tv => tv.Inside other stop := by
      rw [filtered]
    simpa [List.mem_filter, member, TimeValuePair.Inside, early] using both
  · intro same
    refine congrArg (List.map _) (List.filter_congr fun tv member => ?_)
    by_cases early : tv.time ≤ stop
    · simp [TimeValuePair.Inside, same tv member early, early]
    · simp [TimeValuePair.Inside, early]

@[simp] theorem Plugin.channels_synchronize (mode : SynchronizationMode)
    (p : Plugin) : (p.synchronize mode).channels = p.channels := by
  rw [synchronize]
  split <;> rfl

/-- The channel at a position of a plugin. -/
def channelAt (plugins : List Plugin) (p c : Nat) : Option Channel :=
  plugins[p]?.bind fun plugin => plugin.channels[c]?

namespace MainMonitor

theorem channelAt_destroy (plugins : List Plugin) (start stop : TimePoint)
    (systemTime : String) (values : Nat → Nat → List TimeValuePair)
    (p c : Nat) :
    channelAt ((init plugins start systemTime).destroy stop values).metrics.plugins
        p c =
      (channelAt plugins p c).map fun channel =>
        if channel.id = -1 then channel
        else { channel with
          written := channel.written ++ eventsWithin 0 stop (values p c) } := by
  let final := (init plugins start systemTime).destroy stop values
  have fetched : final.metrics.plugins =
      ((plugins.map Plugin.startRecording).map Plugin.stopRecording).mapIdx
        fun p plugin => plugin.fetchData 0 stop (values p) := rfl
  rw [channelAt, channelAt, fetched, List.getElem?_mapIdx, List.getElem?_map,
    List.getElem?_map]
  cases plugins[p]? with
  | none => rfl
  | some plugin =>
      have channels : plugin.startRecording.stopRecording.channels =
          plugin.channels := by
        rw [Plugin.stopRecording, Plugin.startRecording,
          Plugin.channels_synchronize, Plugin.channels_synchronize]
      simp only [Option.map_some, Option.bind_some, Plugin.fetchData, channels,
        List.getElem?_mapIdx, Channel.writeValues_eq]

/-- Every channel in use has written the pairs within an interval. -/
def WritesInterval (plugins : List Plugin) (start stop : TimePoint)
    (values : Nat → Nat → List TimeValuePair) (m : MainMonitor) : Prop :=
  ∀ p c channel, channelAt plugins p c = some channel → channel.id ≠ -1 →
    channelAt m.metrics.plugins p c =
      some { channel with
        written := channel.written ++ eventsWithin start stop (values p c) }

/-- What is expected of a recording. -/
structure RecordsInterval (plugins : List Plugin) (start stop : TimePoint)
    (values : Nat → Nat → List TimeValuePair) (m : MainMonitor) : Prop where
  written : m.WritesInterval plugins start stop values
  recordFrom : m.trace.recordFrom = start
  recordTo : m.trace.recordTo = stop

/-- The interval is the right one only for a recording that begins when the
clock does; and the right pairs are written as long as no pair that is returned
lies between that time and the beginning. -/
theorem recordsInterval_iff (plugins : List Plugin) (start stop : TimePoint)
    (systemTime : String) (values : Nat → Nat → List TimeValuePair) :
    (RecordsInterval plugins start stop values
        ((init plugins start systemTime).destroy stop values) ↔ start = 0) ∧
      (WritesInterval plugins start stop values
          ((init plugins start systemTime).destroy stop values) ↔
        ∀ p c channel, channelAt plugins p c = some channel → channel.id ≠ -1 →
          ∀ tv ∈ values p c, tv.time ≤ stop → (0 ≤ tv.time ↔ start ≤ tv.time)) := by
  let final := (init plugins start systemTime).destroy stop values
  have writes : WritesInterval plugins start stop values final ↔
      ∀ p c channel, channelAt plugins p c = some channel → channel.id ≠ -1 →
        eventsWithin 0 stop (values p c) = eventsWithin start stop (values p c) := by
    simp only [WritesInterval, final, channelAt_destroy]
    refine forall₃_congr fun p c channel => forall₂_congr fun found used => ?_
    rw [found, Option.map_some, if_neg used]
    simp
  simp only [eventsWithin_eq_iff] at writes
  refine ⟨⟨fun records => records.recordFrom.symm, ?_⟩, writes⟩
  rintro rfl
  exact ⟨writes.mpr fun _ _ _ _ _ _ _ _ => Iff.rfl, rfl, rfl⟩

/-- A plugin that has values from before the recording. -/
def earlyPlugin : Plugin := ⟨"early", [⟨0, "watts", []⟩], false, []⟩

/-- The recording goes from 100 to 200; the first value is from 50. -/
theorem early_value_written :
    channelAt ((init [earlyPlugin] 100 "").destroy 200
      fun _ _ => [⟨50, 7⟩, ⟨150, 8⟩]).metrics.plugins 0 0 =
        some ⟨0, "watts", [(50, 7), (150, 8)]⟩ ∧
      ¬ RecordsInterval [earlyPlugin] 100 200 (fun _ _ => [⟨50, 7⟩, ⟨150, 8⟩])
        ((init [earlyPlugin] 100 "").destroy 200
          fun _ _ => [⟨50, 7⟩, ⟨150, 8⟩]) := by
  refine ⟨rfl, fun records => ?_⟩
  have start := records.recordFrom
  cases start

end MainMonitor

end Lo2s
