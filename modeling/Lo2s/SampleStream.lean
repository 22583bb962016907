import Lo2s.CctxEnter
import Lo2s.SampleWriter

/-!
# The event stream of a sampled thread

A stream is well formed when its time points never go back, its first event is
its only begin of the thread and its last event its only end.  The writer of a
thread keeps the time points in order whatever the records say.  It misplaces
the begin when the first record is a switch out, and the end when contexts are
left to the destructor.  It does not come to an end with a sample that has an
empty call chain, when call chains are recorded.
-/

namespace Lo2s

open Foundation

namespace TraceEvent

def isThreadBegin : TraceEvent → Bool
  | .threadBegin _ _ => true
  | _ => false

def isThreadEnd : TraceEvent → Bool
  | .threadEnd _ _ => true
  | _ => false

/-- Neither the begin nor the end of a thread. -/
def isInner (event : TraceEvent) : Bool :=
  !event.isThreadBegin && !event.isThreadEnd

theorem isThreadBegin_eq_false_of_isInner {event : TraceEvent}
    (inner : event.isInner) : event.isThreadBegin = false := by
  cases event <;> first | rfl | cases inner

theorem isThreadEnd_eq_false_of_isInner {event : TraceEvent}
    (inner : event.isInner) : event.isThreadEnd = false := by
  cases event <;> first | rfl | cases inner

end TraceEvent

/-- The events of one location, from the begin of its thread to the end. -/
structure WellFormedStream (events : List TraceEvent) : Prop where
  ordered : events.Pairwise fun earlier later =>
    earlier.timestamp ≤ later.timestamp
  begun : ∃ tp comm rest, events = .threadBegin tp comm :: rest ∧
    ∀ event ∈ rest, event.isThreadBegin = false
  ended : ∃ tp comm rest, events = rest ++ [.threadEnd tp comm] ∧
    ∀ event ∈ rest, event.isThreadEnd = false

namespace LocalCctxTree

/-- The calls on the tree at one time point have written `added`. -/
structure Appends (tp : TimePoint) (added : List TraceEvent)
    (t result : LocalCctxTree) : Prop where
  invariant : result.Invariant
  writer : result.writer = t.writer ++ added
  inner : ∀ event ∈ added, event.timestamp = tp ∧ event.isInner

theorem Appends.refl {t : LocalCctxTree} (invariant : t.Invariant)
    (tp : TimePoint) : Appends tp [] t t :=
  ⟨invariant, (List.append_nil _).symm, by simp⟩

theorem Appends.trans {tp : TimePoint} {first second : List TraceEvent}
    {t middle result : LocalCctxTree} (left : Appends tp first t middle)
    (right : Appends tp second middle result) :
    Appends tp (first ++ second) t result where
  invariant := right.invariant
  writer := by rw [right.writer, left.writer, List.append_assoc]
  inner := by
    intro event member
    rcases List.mem_append.mp member with old | new
    · exact left.inner event old
    · exact right.inner event new

/-- The leaves of a stack, top first. -/
def leaves (tp : TimePoint) (t : LocalCctxTree) (level : Nat) :
    List TraceEvent :=
  (t.cur.take (t.cur.length - level)).map fun node =>
    .callingContextLeave tp node.ref

theorem leaves_inner (tp : TimePoint) (t : LocalCctxTree) (level : Nat) :
    ∀ event ∈ t.leaves tp level, event.timestamp = tp ∧ event.isInner := by
  intro event member
  obtain ⟨node, _, rfl⟩ := List.mem_map.mp member
  exact ⟨rfl, rfl⟩

theorem Appends.cctxLeave {t : LocalCctxTree} (invariant : t.Invariant)
    (tp : TimePoint) {level : Nat} (positive : 0 < level) :
    Appends tp (t.leaves tp level) t (t.cctxLeave tp level) where
  invariant := invariant.cctxLeave tp level
  writer := cctxLeave_writer tp positive t
  inner := leaves_inner tp t level

theorem Pushed.appends {tp : TimePoint} {cctx : EnteredContext}
    {t result : LocalCctxTree} (pushed : Pushed tp cctx t result) :
    ∃ added, Appends tp added t result := by
  obtain ⟨node, key, _, _, _, writer⟩ := pushed.entered
  refine ⟨_, pushed.invariant, writer, ?_⟩
  intro event member
  rw [List.mem_singleton.mp member]
  exact ⟨rfl, rfl⟩

theorem Sampled.appends {tp : TimePoint} {distance : UInt64}
    {t result : LocalCctxTree} (sampled : Sampled tp distance t result) :
    ∃ event, Appends tp [event] t result := by
  obtain ⟨_, _, _, ref, _, _, writer⟩ := sampled.sampled
  refine ⟨_, sampled.invariant, writer, ?_⟩
  intro event member
  rw [List.mem_singleton.mp member]
  exact ⟨rfl, rfl⟩

/-- Entering a list of contexts writes inner events only and leaves the stack
at least as high as the last level asked for. -/
theorem cctxEnter_appends {t : LocalCctxTree} (invariant : t.Invariant)
    (tp : TimePoint) {level : Nat} (positive : 0 < level)
    (admissible : level ≤ t.curLevel + 1) (cctxs : List EnteredContext) :
    ∃ result added, t.cctxEnter tp level cctxs = .ok result ∧
      Appends tp added t result ∧
        level + cctxs.length ≤ result.curLevel + 1 := by
  induction cctxs generalizing t level with
  | nil => exact ⟨t, [], rfl, .refl invariant tp, admissible⟩
  | cons cctx cctxs induction =>
      obtain ⟨middle, entered, effect⟩ :=
        handleEnter_spec invariant tp positive admissible cctx
      obtain ⟨same, sameEntered, _, height, _⟩ :=
        handleEnter_keeps invariant tp positive admissible cctx
      rw [entered, Except.ok.injEq] at sameEntered
      subst sameEntered
      have first : ∃ added, Appends tp added t middle := by
        rcases effect with pushed | ⟨rfl, _⟩
        · obtain ⟨added, pushes⟩ := pushed.appends
          exact ⟨_, (Appends.cctxLeave invariant tp positive).trans pushes⟩
        · exact ⟨[], .refl invariant tp⟩
      obtain ⟨firstAdded, firstAppends⟩ := first
      obtain ⟨result, added, finished, appends, resultHeight⟩ :=
        induction firstAppends.invariant level.succ_pos (by omega)
      refine ⟨result, firstAdded ++ added, ?_, firstAppends.trans appends, ?_⟩
      · rw [cctxEnter, entered]
        exact finished
      · rw [List.length_cons]
        omega

end LocalCctxTree

namespace Record

/-- A record that writes events: a sample or a context switch. -/
def isTimed : Record → Bool
  | .sample _ => true
  | .mmap _ => false
  | .switchCpuWide _ => true
  | .switch _ => true

def isSwitchOut : Record → Bool
  | .sample _ => false
  | .mmap _ => false
  | .switchCpuWide contextSwitch => switchOutBit contextSwitch.misc
  | .switch contextSwitch => switchOutBit contextSwitch.misc

/-- The buffer of a thread holds no CPU-wide switches. -/
def ofThread : Record → Bool
  | .switchCpuWide _ => false
  | _ => true

/-- A sample has a call chain, if call chains are recorded. -/
def HasIp (recordCallgraph : Bool) : Record → Prop
  | .sample record => recordCallgraph = true → record.nr ≠ 0
  | .mmap _ | .switchCpuWide _ | .switch _ => True

end Record

namespace SampleWriter

/-- The begin of the thread that `update_calling_context` writes. -/
def opening (thread : Thread) (tp : TimePoint) (out : Bool)
    (w : SampleWriter) : List TraceEvent :=
  if w.firstEvent && !out then [.threadBegin tp (w.trace.processComm thread)]
  else []

/-- The effect of a record whose adjusted time point is `tp`: the begin of the
thread if it is still to come, then the events `inner`. -/
structure Stepped (thread : Thread) (tp : TimePoint) (out : Bool)
    (inner : List TraceEvent) (w next : SampleWriter) : Prop where
  scope : next.scope = w.scope
  recordCallgraph : next.recordCallgraph = w.recordCallgraph
  firstTimePoint : next.firstTimePoint = w.firstTimePoint
  lastTimePoint : next.lastTimePoint = tp
  firstEvent : next.firstEvent = (w.firstEvent && out)
  tree : next.localCctxTree.Invariant
  left : out = true → next.localCctxTree.curLevel = 0
  entered : out = false → 1 ≤ next.localCctxTree.curLevel
  events : next.events = w.events ++ (w.opening thread tp out ++ inner)
  inner : ∀ event ∈ inner, event.timestamp = tp ∧ event.isInner

theorem Stepped.appends {thread : Thread} {tp : TimePoint} {out : Bool}
    {inner : List TraceEvent} {w next : SampleWriter}
    (stepped : Stepped thread tp out inner w next) {added : List TraceEvent}
    {tree : LocalCctxTree}
    (appends : LocalCctxTree.Appends tp added next.localCctxTree tree)
    (cur : tree.cur = next.localCctxTree.cur) :
    Stepped thread tp out (inner ++ added) w
      { next with localCctxTree := tree } where
  scope := stepped.scope
  recordCallgraph := stepped.recordCallgraph
  firstTimePoint := stepped.firstTimePoint
  lastTimePoint := stepped.lastTimePoint
  firstEvent := stepped.firstEvent
  tree := appends.invariant
  left := by
    intro isOut
    rw [LocalCctxTree.curLevel, cur]
    exact stepped.left isOut
  entered := by
    intro isIn
    rw [LocalCctxTree.curLevel, cur]
    exact stepped.entered isIn
  events := by
    change tree.writer = _
    have events : next.localCctxTree.writer = _ := stepped.events
    rw [appends.writer, events]
    simp only [List.append_assoc]
  inner := by
    intro event member
    rcases List.mem_append.mp member with old | new
    · exact stepped.inner event old
    · exact appends.inner event new

/-- The effect of `beginThread`: the begin, once. -/
structure Begun (thread : Thread) (tp : TimePoint) (w next : SampleWriter) :
    Prop where
  scope : next.scope = w.scope
  recordCallgraph : next.recordCallgraph = w.recordCallgraph
  firstTimePoint : next.firstTimePoint = w.firstTimePoint
  lastTimePoint : next.lastTimePoint = w.lastTimePoint
  firstEvent : next.firstEvent = false
  tree : next.localCctxTree.Invariant
  events : next.events = w.events ++ w.opening thread tp false

theorem beginThread_spec {w : SampleWriter} (tree : w.localCctxTree.Invariant)
    (notCpu : w.scope.isCpu = false) (thread : Thread) (tp : TimePoint) :
    Begun thread tp w (w.beginThread thread tp) := by
  cases first : w.firstEvent with
  | true =>
      have opened : w.beginThread thread tp =
          { w.write (.threadBegin tp (w.trace.processComm thread)) with
            firstEvent := false } := by
        simp [beginThread, first, notCpu]
      rw [opened]
      constructor
      case tree => exact ⟨tree.tree, tree.stack⟩
      case events =>
        simp only [opening, first]
        rfl
      all_goals rfl
  | false =>
      have kept : w.beginThread thread tp = w := by simp [beginThread, first]
      rw [kept]
      constructor
      case tree => exact tree
      case firstEvent => exact first
      case events => simp [opening, first]
      all_goals rfl

theorem switchOut_spec {w : SampleWriter} (tree : w.localCctxTree.Invariant)
    (process : Process) (thread : Thread) :
    ∃ next inner,
      w.updateCallingContext process thread w.lastTimePoint true = .ok next ∧
        Stepped thread w.lastTimePoint true inner w next := by
  have appends := LocalCctxTree.Appends.cctxLeave tree w.lastTimePoint
    Nat.one_pos
  refine ⟨_, w.localCctxTree.leaves w.lastTimePoint 1, rfl, ?_⟩
  constructor
  case firstEvent => exact (Bool.and_true _).symm
  case tree => exact appends.invariant
  case left =>
    intro _
    change (w.localCctxTree.cctxLeave w.lastTimePoint 1).curLevel = 0
    rw [LocalCctxTree.cctxLeave_curLevel _ Nat.one_pos]
    exact Nat.min_zero _
  case entered => nofun
  case events =>
    simp only [opening, Bool.not_true, Bool.and_false, Bool.false_eq_true,
      if_false]
    exact appends.writer
  case inner => exact appends.inner
  all_goals rfl

theorem switchIn_spec {w : SampleWriter} (tree : w.localCctxTree.Invariant)
    (notCpu : w.scope.isCpu = false) (process : Process) (thread : Thread) :
    ∃ next inner,
      w.updateCallingContext process thread w.lastTimePoint false = .ok next ∧
        Stepped thread w.lastTimePoint false inner w next := by
  have begun := beginThread_spec tree notCpu thread w.lastTimePoint
  let opened := w.beginThread thread w.lastTimePoint
  obtain ⟨result, added, entered, appends, height⟩ :=
    LocalCctxTree.cctxEnter_appends begun.tree w.lastTimePoint Nat.one_pos
      (by omega)
      [.process process opened.unwritten, .thread thread opened.unwritten]
  refine ⟨{ opened with localCctxTree := result }, added, ?_, ?_⟩
  · simp only [updateCallingContext, Bool.false_eq_true, if_false,
      cctxLevelProcess]
    rw [entered]
  · constructor
    case scope => exact begun.scope
    case recordCallgraph => exact begun.recordCallgraph
    case firstTimePoint => exact begun.firstTimePoint
    case lastTimePoint => exact begun.lastTimePoint
    case firstEvent => exact begun.firstEvent.trans (Bool.and_false _).symm
    case tree => exact appends.invariant
    case left => nofun
    case entered =>
      intro _
      change 1 ≤ result.curLevel
      simp only [List.length_cons, List.length_nil] at height
      omega
    case events =>
      have writer : opened.localCctxTree.writer = _ := begun.events
      change result.writer = _
      rw [appends.writer, writer, List.append_assoc]
    case inner => exact appends.inner

theorem updateCallingContext_spec {w : SampleWriter}
    (tree : w.localCctxTree.Invariant) (notCpu : w.scope.isCpu = false)
    (process : Process) (thread : Thread) (out : Bool) :
    ∃ next inner,
      w.updateCallingContext process thread w.lastTimePoint out = .ok next ∧
        Stepped thread w.lastTimePoint out inner w next := by
  cases out with
  | true => exact switchOut_spec tree process thread
  | false => exact switchIn_spec tree notCpu process thread

theorem le_adjustTimepoints (tp : TimePoint) (w : SampleWriter) :
    w.lastTimePoint ≤ (w.adjustTimepoints tp).2 := by
  by_cases early : tp < w.lastTimePoint
  · simp [adjustTimepoints, early]
  · simpa [adjustTimepoints, early] using not_lt.mp early

theorem adjusted_spec {w : SampleWriter} (tree : w.localCctxTree.Invariant)
    (notCpu : w.scope.isCpu = false) (raw : TimePoint) (process : Process)
    (thread : Thread) (out : Bool) :
    ∃ next inner,
      (w.adjustTimepoints raw).1.updateCallingContext process thread
        (w.adjustTimepoints raw).2 out = .ok next ∧
      Stepped thread (w.adjustTimepoints raw).2 out inner w next := by
  obtain ⟨next, inner, updated, stepped⟩ :=
    updateCallingContext_spec (w := (w.adjustTimepoints raw).1) tree notCpu
      process thread out
  refine ⟨next, inner, updated, ?_⟩
  exact
    { scope := stepped.scope
      recordCallgraph := stepped.recordCallgraph
      firstTimePoint := stepped.firstTimePoint
      lastTimePoint := stepped.lastTimePoint
      firstEvent := stepped.firstEvent
      tree := stepped.tree
      left := stepped.left
      entered := stepped.entered
      events := stepped.events
      inner := stepped.inner }

theorem cctxSample_spec {w : SampleWriter} (tree : w.localCctxTree.Invariant)
    {sample : RecordSample}
    (hasIp : w.recordCallgraph = true → sample.nr ≠ 0) (tp : TimePoint) :
    ∃ result event, w.cctxSample sample tp = .ok result ∧
      LocalCctxTree.Appends tp [event] w.localCctxTree result ∧
        result.cur = w.localCctxTree.cur := by
  cases callgraph : w.recordCallgraph with
  | true =>
      obtain ⟨result, sampled, effect⟩ :=
        LocalCctxTree.cctxSample_spec tree tp (hasIp callgraph) sample.ips
          w.unwritten
      obtain ⟨event, appends⟩ := effect.appends
      exact ⟨result, event, by simpa [cctxSample, callgraph] using sampled,
        appends, effect.cur⟩
  | false =>
      obtain ⟨result, sampled, effect⟩ :=
        LocalCctxTree.cctxSampleIp_spec tree tp sample.ip w.unwritten
      obtain ⟨event, appends⟩ := effect.appends
      exact ⟨result, event, by simpa [cctxSample, callgraph] using sampled,
        appends, effect.cur⟩

/-- A record that writes events writes at least one that is neither the begin
nor the end of the thread, all of them at one time point. -/
theorem handle_spec {w : SampleWriter} (tree : w.localCctxTree.Invariant)
    (notCpu : w.scope.isCpu = false) {record : Record}
    (timed : record.isTimed) (ofThread : record.ofThread)
    (hasIp : record.HasIp w.recordCallgraph) :
    ∃ next thread tp inner, w.handle record = .ok next ∧
      w.lastTimePoint ≤ tp ∧ inner ≠ [] ∧
        Stepped thread tp record.isSwitchOut inner w next := by
  cases record with
  | mmap mmapEvent => cases timed
  | switchCpuWide contextSwitch => cases ofThread
  | sample sample =>
      obtain ⟨middle, inner, updated, stepped⟩ :=
        adjusted_spec tree notCpu (w.timeConverter.convert sample.time)
          (processOf sample.pid) (threadOf sample.tid) false
      have hasIp' : middle.recordCallgraph = true → sample.nr ≠ 0 :=
        fun callgraph => hasIp (stepped.recordCallgraph ▸ callgraph)
      obtain ⟨result, event, sampled, appends, cur⟩ :=
        cctxSample_spec stepped.tree hasIp'
          (w.adjustTimepoints (w.timeConverter.convert sample.time)).2
      refine ⟨{ middle with localCctxTree := result }, threadOf sample.tid, _,
        inner ++ [event], ?_, le_adjustTimepoints _ w, by simp,
        stepped.appends appends cur⟩
      simp only [handle, handleSample, updated, sampled]
  | switch contextSwitch =>
      obtain ⟨middle, inner, updated, stepped⟩ :=
        adjusted_spec tree notCpu (w.timeConverter.convert contextSwitch.time)
          (processOf contextSwitch.pid) (threadOf contextSwitch.tid)
          (switchOutBit contextSwitch.misc)
      let tp :=
        (w.adjustTimepoints (w.timeConverter.convert contextSwitch.time)).2
      let metric : TraceEvent := .metric tp (cpuidValue contextSwitch)
      have appends : LocalCctxTree.Appends tp [metric] middle.localCctxTree
          (middle.localCctxTree.write metric) := by
        refine ⟨⟨stepped.tree.tree, stepped.tree.stack⟩, rfl, ?_⟩
        intro event member
        rw [List.mem_singleton.mp member]
        exact ⟨rfl, rfl⟩
      refine ⟨middle.write metric, threadOf contextSwitch.tid, _,
        inner ++ [metric], ?_, le_adjustTimepoints _ w, by simp,
        stepped.appends appends rfl⟩
      simp only [handle, handleSwitch, notCpu, Bool.false_eq_true, if_false,
        updated]
      rfl

/-- What the records that write events have left behind. -/
structure Follows (thread : Thread) (recordCallgraph : Bool)
    (seen : List Record) (w : SampleWriter) : Prop where
  scope : w.scope = .thread thread
  recordCallgraph : w.recordCallgraph = recordCallgraph
  tree : w.localCctxTree.Invariant
  ordered : w.events.Pairwise fun earlier later =>
    earlier.timestamp ≤ later.timestamp
  bounded : ∀ event ∈ w.events, event.timestamp ≤ w.lastTimePoint
  firstTimePoint : w.firstTimePoint ≤ w.lastTimePoint
  unended : ∀ event ∈ w.events, event.isThreadEnd = false
  untouched : seen = [] →
    w.events = [] ∧ w.firstEvent = true ∧ w.localCctxTree.curLevel = 0
  begun : ∀ first ∈ seen.head?, first.isSwitchOut = false →
    w.firstEvent = false ∧
      ∃ tp comm rest, w.events = .threadBegin tp comm :: rest ∧
        ∀ event ∈ rest, event.isThreadBegin = false
  late : ∀ first ∈ seen.head?, first.isSwitchOut = true →
    ∃ event rest, w.events = event :: rest ∧ event.isThreadBegin = false
  left : ∀ last ∈ seen.getLast?, last.isSwitchOut = true →
    w.localCctxTree.curLevel = 0
  entered : ∀ last ∈ seen.getLast?, last.isSwitchOut = false →
    1 ≤ w.localCctxTree.curLevel

theorem Follows.init (thread : Thread) (trace : Trace) (recordCallgraph : Bool)
    (timeConverter : Converter) (unwritten : UnwrittenWords)
    (interruptGenerator : Nat) (now : TimePoint) :
    Follows thread recordCallgraph [] (init (.thread thread) trace
      recordCallgraph timeConverter unwritten interruptGenerator now) where
  scope := rfl
  recordCallgraph := rfl
  tree := .init interruptGenerator
  ordered := List.Pairwise.nil
  bounded := nofun
  firstTimePoint := le_refl now
  unended := nofun
  untouched := fun _ => ⟨rfl, rfl, rfl⟩
  begun := nofun
  late := nofun
  left := nofun
  entered := nofun

theorem mem_opening {thread : Thread} {tp : TimePoint} {out : Bool}
    {w : SampleWriter} {event : TraceEvent}
    (member : event ∈ w.opening thread tp out) :
    event = .threadBegin tp (w.trace.processComm thread) := by
  unfold opening at member
  split at member
  · exact List.mem_singleton.mp member
  · exact absurd member List.not_mem_nil

theorem Stepped.timestamp {thread : Thread} {tp : TimePoint} {out : Bool}
    {inner : List TraceEvent} {w next : SampleWriter}
    (stepped : Stepped thread tp out inner w next) {event : TraceEvent}
    (member : event ∈ w.opening thread tp out ++ inner) :
    event.timestamp = tp := by
  rcases List.mem_append.mp member with opened | later
  · rw [mem_opening opened]
    rfl
  · exact (stepped.inner event later).1

theorem Stepped.isThreadEnd {thread : Thread} {tp : TimePoint} {out : Bool}
    {inner : List TraceEvent} {w next : SampleWriter}
    (stepped : Stepped thread tp out inner w next) {event : TraceEvent}
    (member : event ∈ w.opening thread tp out ++ inner) :
    event.isThreadEnd = false := by
  rcases List.mem_append.mp member with opened | later
  · rw [mem_opening opened]
    rfl
  · exact TraceEvent.isThreadEnd_eq_false_of_isInner
      (stepped.inner event later).2

theorem ordered_append {events added : List TraceEvent} {tp : TimePoint}
    (ordered : events.Pairwise fun earlier later =>
      earlier.timestamp ≤ later.timestamp)
    (bounded : ∀ event ∈ events, event.timestamp ≤ tp)
    (sameTime : ∀ event ∈ added, event.timestamp = tp) :
    (events ++ added).Pairwise fun earlier later =>
      earlier.timestamp ≤ later.timestamp := by
  apply List.pairwise_append.mpr
  refine ⟨ordered, ?_, ?_⟩
  · apply List.pairwise_of_forall_mem_list
    intro earlier earlierMember later laterMember
    rw [sameTime earlier earlierMember, sameTime later laterMember]
  · intro earlier earlierMember later laterMember
    rw [sameTime later laterMember]
    exact bounded earlier earlierMember

theorem Follows.step {thread : Thread} {recordCallgraph : Bool}
    {seen : List Record} {w : SampleWriter}
    (follows : Follows thread recordCallgraph seen w) {stepThread : Thread} {tp : TimePoint}
    {record : Record} {inner : List TraceEvent} {next : SampleWriter}
    (later : w.lastTimePoint ≤ tp) (nonempty : inner ≠ [])
    (stepped : Stepped stepThread tp record.isSwitchOut inner w next) :
    Follows thread recordCallgraph (seen ++ [record]) next := by
  have earlier : ∀ event ∈ w.events, event.timestamp ≤ tp :=
    fun event member => (follows.bounded event member).trans later
  have innerBegin : ∀ event ∈ inner, event.isThreadBegin = false :=
    fun event member => TraceEvent.isThreadBegin_eq_false_of_isInner
      (stepped.inner event member).2
  constructor
  case scope => exact stepped.scope.trans follows.scope
  case recordCallgraph =>
    exact stepped.recordCallgraph.trans follows.recordCallgraph
  case tree => exact stepped.tree
  case ordered =>
    rw [stepped.events]
    exact ordered_append follows.ordered earlier
      fun event member => stepped.timestamp member
  case bounded =>
    intro event member
    rw [stepped.events] at member
    rw [stepped.lastTimePoint]
    rcases List.mem_append.mp member with old | new
    · exact earlier event old
    · exact le_of_eq (stepped.timestamp new)
  case firstTimePoint =>
    rw [stepped.firstTimePoint, stepped.lastTimePoint]
    exact follows.firstTimePoint.trans later
  case unended =>
    intro event member
    rw [stepped.events] at member
    rcases List.mem_append.mp member with old | new
    · exact follows.unended event old
    · exact stepped.isThreadEnd new
  case untouched => simp
  case begun =>
    intro first isFirst isIn
    cases seen with
    | nil =>
        obtain rfl : record = first := by simpa using isFirst
        obtain ⟨noEvents, firstEvent, _⟩ := follows.untouched rfl
        refine ⟨by rw [stepped.firstEvent, isIn, Bool.and_false], ?_⟩
        refine ⟨tp, w.trace.processComm stepThread, inner, ?_, innerBegin⟩
        rw [stepped.events, noEvents]
        simp [opening, firstEvent, isIn]
    | cons head tail =>
        obtain ⟨firstEvent, beginTime, comm, rest, events, unique⟩ :=
          follows.begun first (by simpa using isFirst) isIn
        refine ⟨by rw [stepped.firstEvent, firstEvent, Bool.false_and], ?_⟩
        refine ⟨beginTime, comm, rest ++ inner, ?_, ?_⟩
        · rw [stepped.events, events]
          simp [opening, firstEvent]
        · intro event member
          rcases List.mem_append.mp member with old | new
          · exact unique event old
          · exact innerBegin event new
  case late =>
    intro first isFirst isOut
    cases seen with
    | nil =>
        obtain rfl : record = first := by simpa using isFirst
        obtain ⟨event, rest, shape⟩ := List.exists_cons_of_ne_nil nonempty
        refine ⟨event, rest, ?_, innerBegin event (by simp [shape])⟩
        rw [stepped.events, (follows.untouched rfl).1]
        simp [opening, isOut, shape]
    | cons head tail =>
        obtain ⟨event, rest, events, notBegin⟩ :=
          follows.late first (by simpa using isFirst) isOut
        refine ⟨event,
          rest ++ (w.opening stepThread tp record.isSwitchOut ++ inner), ?_,
          notBegin⟩
        rw [stepped.events, events, List.cons_append]
  case left =>
    intro last isLast isOut
    obtain rfl : record = last := by simpa using isLast
    exact stepped.left isOut
  case entered =>
    intro last isLast isIn
    obtain rfl : record = last := by simpa using isLast
    exact stepped.entered isIn

/-- Every record of a thread is handled, if it has what is recorded of it. -/
theorem Follows.handle {thread : Thread} {recordCallgraph : Bool}
    {seen : List Record} {w : SampleWriter}
    (follows : Follows thread recordCallgraph seen w) {record : Record}
    (ofThread : record.ofThread) (hasIp : record.HasIp recordCallgraph) :
    ∃ next, w.handle record = .ok next ∧
      Follows thread recordCallgraph
        (seen ++ [record].filter Record.isTimed) next := by
  have notCpu : w.scope.isCpu = false := by rw [follows.scope]; rfl
  cases timed : record.isTimed with
  | true =>
      obtain ⟨next, stepThread, tp, inner, handled, later, nonempty, stepped⟩ :=
        handle_spec follows.tree notCpu timed ofThread
          (follows.recordCallgraph ▸ hasIp)
      refine ⟨next, handled, ?_⟩
      rw [List.filter_cons_of_pos timed]
      exact follows.step later nonempty stepped
  | false =>
      cases record with
      | mmap mmapEvent =>
          refine ⟨w.handleMmap mmapEvent, rfl, ?_⟩
          rw [List.filter_cons_of_neg (by simp [timed]), List.filter_nil,
            List.append_nil]
          exact { follows with }
      | sample sample => cases timed
      | switchCpuWide contextSwitch => cases timed
      | switch contextSwitch => cases timed

theorem Follows.run {thread : Thread} {recordCallgraph : Bool}
    {seen : List Record} {w : SampleWriter}
    (follows : Follows thread recordCallgraph seen w) {records : List Record}
    (ofThread : ∀ record ∈ records, record.ofThread)
    (hasIps : ∀ record ∈ records, record.HasIp recordCallgraph) :
    ∃ last, Foundation.run SampleWriter.handle w records = .ok last ∧
      Follows thread recordCallgraph
        (seen ++ records.filter Record.isTimed) last := by
  induction records generalizing seen w with
  | nil => exact ⟨w, rfl, by simpa using follows⟩
  | cons record records induction =>
      obtain ⟨next, handled, nextFollows⟩ :=
        follows.handle (ofThread record List.mem_cons_self)
          (hasIps record List.mem_cons_self)
      obtain ⟨last, finished, lastFollows⟩ := induction nextFollows
        (fun other member => ofThread other (List.mem_cons_of_mem _ member))
        (fun other member => hasIps other (List.mem_cons_of_mem _ member))
      refine ⟨last, ?_, ?_⟩
      · rw [Foundation.run, handled]
        exact finished
      · rw [List.append_assoc, ← List.filter_append] at lastFollows
        exact lastFollows

/-- The `thread_begin` of `end()`. -/
def lateBegin (thread : Thread) (w : SampleWriter) : List TraceEvent :=
  if w.firstEvent then
    [.threadBegin w.firstTimePoint (w.trace.processComm thread)]
  else []

theorem end_spec {thread : Thread} {w : SampleWriter}
    (scope : w.scope = .thread thread) (now : TimePoint) :
    ∃ ended, w.end_ now = .ok ended ∧
      ended.destroy.events = w.events ++ (w.lateBegin thread ++
        (.threadEnd (w.adjustTimepoints now).2 (w.trace.processComm thread) ::
          w.localCctxTree.leaves (w.adjustTimepoints now).2 1)) := by
  have destroyed : ∀ ended : SampleWriter, ended.destroy.events =
      ended.events ++ ended.localCctxTree.leaves ended.lastTimePoint 1 :=
    fun ended => LocalCctxTree.cctxLeave_writer ended.lastTimePoint Nat.one_pos
      ended.localCctxTree
  have notCpu : w.scope.isCpu = false := by rw [scope]; rfl
  have adjusted : (w.adjustTimepoints now).1.scope = .thread thread := scope
  unfold end_
  simp only [notCpu, Bool.false_eq_true, if_false, adjusted,
    ExecutionScope.asThread]
  refine ⟨_, rfl, ?_⟩
  rw [destroyed]
  cases first : w.firstEvent with
  | true =>
      have same : (w.adjustTimepoints now).1.firstEvent = true := first
      simp only [same, if_true, lateBegin, first]
      simp [events, write, LocalCctxTree.write, adjustTimepoints,
        LocalCctxTree.leaves]
  | false =>
      have same : (w.adjustTimepoints now).1.firstEvent = false := first
      simp only [same, Bool.false_eq_true, if_false, lateBegin, first]
      simp [events, write, LocalCctxTree.write, adjustTimepoints,
        LocalCctxTree.leaves]

/-- The destructor leaves nothing exactly when no context is entered. -/
theorem leaves_eq_nil_iff {t : LocalCctxTree} (invariant : t.Invariant)
    (tp : TimePoint) : t.leaves tp 1 = [] ↔ t.curLevel = 0 := by
  have height := invariant.cur_length
  rw [LocalCctxTree.leaves, List.map_eq_nil_iff, List.take_eq_nil_iff]
  constructor
  · intro noLeaves
    rcases noLeaves with none' | empty
    · omega
    · exact absurd empty invariant.cur_ne_nil
  · intro bottom
    left
    omega

end SampleWriter

/-- The records that write events, if there are any, start with a sample or a
switch in and end with a switch out. -/
def InFirstAndOutLast (records : List Record) : Prop :=
  (∀ first ∈ (records.filter Record.isTimed).head?,
    first.isSwitchOut = false) ∧
  ∀ last ∈ (records.filter Record.isTimed).getLast?, last.isSwitchOut = true

namespace SampleWriter

theorem wellFormed_of_inFirstAndOutLast {thread : Thread}
    {recordCallgraph : Bool} {records : List Record} {w : SampleWriter}
    (follows : Follows thread recordCallgraph (records.filter Record.isTimed) w)
    (good : InFirstAndOutLast records) (now : TimePoint) (comm : Nat) :
    WellFormedStream (w.events ++ (w.lateBegin thread ++
      (.threadEnd (w.adjustTimepoints now).2 comm ::
        w.localCctxTree.leaves (w.adjustTimepoints now).2 1))) := by
  have later := le_adjustTimepoints now w
  have earlier : ∀ event ∈ w.events,
      event.timestamp ≤ (w.adjustTimepoints now).2 :=
    fun event member => (follows.bounded event member).trans later
  have bottom : w.localCctxTree.curLevel = 0 := by
    cases lastTimed : (records.filter Record.isTimed).getLast? with
    | none =>
        exact (follows.untouched (List.getLast?_eq_none_iff.mp lastTimed)).2.2
    | some last => exact follows.left last lastTimed (good.2 last lastTimed)
  rw [(leaves_eq_nil_iff follows.tree _).mpr bottom]
  cases firstTimed : (records.filter Record.isTimed).head? with
  | none =>
      obtain ⟨noEvents, firstEvent, _⟩ :=
        follows.untouched (List.head?_eq_none_iff.mp firstTimed)
      rw [noEvents, lateBegin, firstEvent, if_pos rfl]
      constructor
      case ordered =>
        simpa [TraceEvent.timestamp] using follows.firstTimePoint.trans later
      case begun =>
        exact ⟨_, _, _, rfl, by simp [TraceEvent.isThreadBegin]⟩
      case ended =>
        exact ⟨_, _, [_], rfl, by simp [TraceEvent.isThreadEnd]⟩
  | some first =>
      obtain ⟨firstEvent, tp, beginComm, rest, events, unique⟩ :=
        follows.begun first firstTimed (good.1 first firstTimed)
      have noLateBegin : w.lateBegin thread = [] := by
        simp [lateBegin, firstEvent]
      rw [noLateBegin, List.nil_append]
      constructor
      case ordered =>
        apply ordered_append follows.ordered earlier
        intro event member
        rw [List.mem_singleton.mp member]
        rfl
      case begun =>
        refine ⟨tp, beginComm, rest ++ [_], by rw [events]; rfl, ?_⟩
        intro event member
        rcases List.mem_append.mp member with old | new
        · exact unique event old
        · rw [List.mem_singleton.mp new]
          rfl
      case ended => exact ⟨_, _, _, rfl, follows.unended⟩

theorem inFirstAndOutLast_of_wellFormed {thread : Thread}
    {recordCallgraph : Bool} {records : List Record} {w : SampleWriter}
    (follows : Follows thread recordCallgraph (records.filter Record.isTimed) w)
    {now : TimePoint} {comm : Nat}
    (wellFormed : WellFormedStream (w.events ++ (w.lateBegin thread ++
      (.threadEnd (w.adjustTimepoints now).2 comm ::
        w.localCctxTree.leaves (w.adjustTimepoints now).2 1)))) :
    InFirstAndOutLast records := by
  constructor
  · intro first isFirst
    by_contra isOut
    obtain ⟨event, rest, events, notBegin⟩ :=
      follows.late first isFirst (Bool.eq_true_of_not_eq_false isOut)
    obtain ⟨tp, beginComm, others, shape, _⟩ := wellFormed.begun
    rw [events, List.cons_append] at shape
    rw [(List.cons.inj shape).1] at notBegin
    cases notBegin
  · intro last isLast
    by_contra isIn
    have high := follows.entered last isLast (Bool.eq_false_of_not_eq_true isIn)
    have someLeave :
        w.localCctxTree.leaves (w.adjustTimepoints now).2 1 ≠ [] := by
      intro noLeave
      rw [leaves_eq_nil_iff follows.tree] at noLeave
      omega
    -- The last event is a leave, so it is not the end of the thread.
    obtain ⟨tp, endComm, others, shape, _⟩ := wellFormed.ended
    have lastEvent := congrArg List.getLast? shape
    rw [← List.append_assoc, List.getLast?_append_cons,
      List.getLast?_cons_of_ne_nil someLeave, List.getLast?_concat] at lastEvent
    have isLeave := LocalCctxTree.leaves_inner (w.adjustTimepoints now).2
      w.localCctxTree 1 _ (List.mem_of_getLast? lastEvent)
    cases isLeave.2

theorem updateCallingContext_recordCallgraph {w next : SampleWriter}
    {process : Process} {thread : Thread} {tp : TimePoint} {switchOut : Bool}
    (updated : w.updateCallingContext process thread tp switchOut = .ok next) :
    next.recordCallgraph = w.recordCallgraph := by
  simp only [updateCallingContext] at updated
  split at updated
  · cases updated
    rfl
  · split at updated
    · cases updated
    · cases updated
      unfold beginThread
      split <;> rfl

theorem hasIp_of_handle {w next : SampleWriter} {record : Record}
    (handled : w.handle record = .ok next) :
    record.HasIp w.recordCallgraph ∧
      next.recordCallgraph = w.recordCallgraph := by
  cases record with
  | mmap mmapEvent =>
      cases handled
      exact ⟨trivial, rfl⟩
  | switchCpuWide contextSwitch =>
      refine ⟨trivial, ?_⟩
      simp only [handle, handleSwitchCpuWide] at handled
      split at handled
      · cases handled
      · have same := updateCallingContext_recordCallgraph handled
        exact same
  | switch contextSwitch =>
      refine ⟨trivial, ?_⟩
      simp only [handle, handleSwitch] at handled
      split at handled
      · cases handled
      · split at handled
        · cases handled
        · next updated =>
            cases handled
            have same := updateCallingContext_recordCallgraph updated
            exact same
  | sample sample =>
      simp only [handle, handleSample] at handled
      split at handled
      · cases handled
      · next middle updated =>
          have same := updateCallingContext_recordCallgraph updated
          split at handled
          · cases handled
          · next tree sampled =>
              cases handled
              refine ⟨fun callgraph => ?_, same⟩
              rw [SampleWriter.cctxSample, if_pos (same.trans callgraph)]
                at sampled
              exact LocalCctxTree.cctxSample_nonempty sampled

theorem hasIps_of_run {w last : SampleWriter} {records : List Record}
    (finished : run handle w records = .ok last) :
    ∀ record ∈ records, record.HasIp w.recordCallgraph := by
  refine (invariant_of_run (fun seen reached =>
    reached.recordCallgraph = w.recordCallgraph ∧
      ∀ record ∈ seen, record.HasIp w.recordCallgraph)
    ⟨rfl, by simp⟩ ?_ finished).2
  intro earlier middle record next before handled
  obtain ⟨same, all⟩ := before
  obtain ⟨hasIp, kept⟩ := hasIp_of_handle handled
  refine ⟨kept.trans same, ?_⟩
  intro other member
  rcases List.mem_append.mp member with old | new
  · exact all other old
  · rw [List.mem_singleton.mp new]
    exact same ▸ hasIp

/-- The stream of a thread is well formed exactly if its records start with a
sample or a switch in and end with a switch out, and if call chains are
recorded, every sample has one. -/
theorem wellFormedStream_iff (thread : Thread) (trace : Trace)
    (recordCallgraph : Bool) (timeConverter : Converter)
    (unwritten : UnwrittenWords) (interruptGenerator : Nat)
    (started ended : TimePoint) (records : List Record)
    (ofThread : ∀ record ∈ records, record.ofThread) :
    (∃ w, (init (.thread thread) trace recordCallgraph timeConverter unwritten
        interruptGenerator started).lifetime records ended = .ok w ∧
      WellFormedStream w.events) ↔
    InFirstAndOutLast records ∧
      ∀ record ∈ records, record.HasIp recordCallgraph := by
  let start := init (.thread thread) trace recordCallgraph timeConverter
    unwritten interruptGenerator started
  have follows := Follows.init thread trace recordCallgraph timeConverter
    unwritten interruptGenerator started
  -- Given the chains, there is one stream, which the records decide about.
  have decided : (∀ record ∈ records, record.HasIp recordCallgraph) →
      ∃ w, start.lifetime records ended = .ok w ∧
        (WellFormedStream w.events ↔ InFirstAndOutLast records) := by
    intro hasIps
    obtain ⟨w, finished, after⟩ := follows.run ofThread hasIps
    rw [List.nil_append] at after
    obtain ⟨last, closed, events⟩ := end_spec after.scope ended
    refine ⟨last.destroy, by simp only [lifetime, start, finished, closed], ?_⟩
    rw [events]
    constructor
    · exact inFirstAndOutLast_of_wellFormed after
    · exact fun good => wellFormed_of_inFirstAndOutLast after good ended _
  constructor
  · rintro ⟨w, lived, wellFormed⟩
    have hasIps : ∀ record ∈ records, record.HasIp recordCallgraph := by
      unfold lifetime at lived
      split at lived
      · cases lived
      · next finished => exact hasIps_of_run finished
    obtain ⟨same, again, stream⟩ := decided hasIps
    cases again.symm.trans lived
    exact ⟨stream.mp wellFormed, hasIps⟩
  · rintro ⟨good, hasIps⟩
    obtain ⟨w, lived, stream⟩ := decided hasIps
    exact ⟨w, lived, stream.mpr good⟩

/-- A sample with its call chain between a switch in and a switch out. -/
theorem wellFormedStream_iff_sampled :
    ∃ w, (init (.thread ⟨7⟩) ⟨fun _ => 0⟩ true ⟨0⟩ ⟨0, 0, 0⟩ 0 0).lifetime
        [.switch ⟨0, 7, 7, 1, 3⟩,
          .sample ⟨64, 7, 7, 2, 2, fun i => [64, 32].get i⟩,
          .switch ⟨0x2000, 7, 7, 3, 3⟩] 4 = .ok w ∧
      WellFormedStream w.events := by
  apply (wellFormedStream_iff ⟨7⟩ ⟨fun _ => 0⟩ true ⟨0⟩ ⟨0, 0, 0⟩ 0 0 4 _
    (by simp [Record.ofThread])).mpr
  refine ⟨⟨?_, ?_⟩, ?_⟩
  · intro first isFirst
    cases isFirst
    decide
  · intro last isLast
    cases isLast
    decide
  · simp [Record.HasIp]

/-- A thread that only ever switches out: its begin comes after the metric, at
an earlier time. -/
theorem switchOut_only_begins_late :
    ∃ w, (init (.thread ⟨7⟩) ⟨fun _ => 0⟩ false ⟨0⟩ ⟨0, 0, 0⟩ 0 0).lifetime
        [.switch ⟨0x2000, 7, 7, 1, 3⟩] 2 = .ok w ∧
      w.events = [.metric 1 (-1), .threadBegin 0 0, .threadEnd 2 0] ∧
      ¬ WellFormedStream w.events := by
  refine ⟨_, rfl, rfl, ?_⟩
  intro wellFormed
  obtain ⟨_, _, _, shape, _⟩ := wellFormed.begun
  cases shape

end SampleWriter

end Lo2s
