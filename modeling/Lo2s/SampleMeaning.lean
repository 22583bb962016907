import Lo2s.LocationCalls
import Lo2s.SampleStream

/-!
# What a sample writer tells

A sample writer is followed by a machine without references, which is in the
contexts of one thread at a time.  A thread stays until it is switched out, so a
sample of another one is told of the one that stays.
-/

namespace Lo2s

open Foundation LocalCctxTree

/-- A sample writer without references: the process and the thread it is in, by
their ids, and the last time. -/
structure Sampling where
  current : Option (UInt32 × UInt32)
  time : TimePoint
  log : List PathEvent

namespace SampleWriter

variable {w next : SampleWriter} {s : Sampling}

/-- The contexts of a process and one of its threads. -/
def contextsOf (ids : UInt32 × UInt32) (w : SampleWriter) :
    List EnteredContext :=
  [.process (processOf ids.1) w.unwritten, .thread (threadOf ids.2) w.unwritten]

/-- The contexts entered, the outermost first. -/
def inside (s : Sampling) (w : SampleWriter) : List EnteredContext :=
  (s.current.map fun ids => w.contextsOf ids).getD []

/-- Time does not run backwards. -/
def adjusted (time : UInt64) (s : Sampling) (w : SampleWriter) : TimePoint :=
  let tp := w.timeConverter.convert time
  if tp < s.time then s.time else tp

/-- A thread is entered only while there is none.  The one that is there stays,
also for a record of another thread. -/
def switchIn (tp : TimePoint) (ids : UInt32 × UInt32) (s : Sampling)
    (w : SampleWriter) : Sampling :=
  match s.current with
  | some current => ⟨some current, tp, s.log⟩
  | none => ⟨some ids, tp, s.log ++
      [.enter tp ((w.contextsOf ids).take 1), .enter tp (w.contextsOf ids)]⟩

def switchOut (tp : TimePoint) (s : Sampling) (w : SampleWriter) : Sampling :=
  match s.current with
  | some current => ⟨none, tp, s.log ++
      [.leave tp (w.contextsOf current),
        .leave tp ((w.contextsOf current).take 1)]⟩
  | none => ⟨none, tp, s.log⟩

def switched (misc : UInt16) (tp : TimePoint) (ids : UInt32 × UInt32)
    (s : Sampling) (w : SampleWriter) : Sampling :=
  if switchOutBit misc then w.switchOut tp s else w.switchIn tp ids s

/-- The addresses below the thread, and how many the reader is told of. -/
def chainOf (sample : RecordSample) (w : SampleWriter) :
    List UInt64 × UInt64 :=
  if w.recordCallgraph then (LocalCctxTree.callChain sample.ips, sample.nr)
  else ([sample.ip], 2)

def sampled (sample : RecordSample) (tp : TimePoint) (s : Sampling)
    (w : SampleWriter) : Sampling :=
  let s := w.switchIn tp (sample.pid, sample.tid) s
  ⟨s.current, tp, s.log ++ [.sample tp (w.inside s ++
    LocalCctxTree.chainPath (w.chainOf sample).1 w.unwritten)
    (w.chainOf sample).2]⟩

def advance (w : SampleWriter) (s : Sampling) : Record → Sampling
  | .sample sample => w.sampled sample (w.adjusted sample.time s) s
  | .mmap _ => s
  | .switchCpuWide contextSwitch =>
      w.switched contextSwitch.misc (w.adjusted contextSwitch.time s)
        (contextSwitch.pid, contextSwitch.tid) s
  | .switch contextSwitch =>
      w.switched contextSwitch.misc (w.adjusted contextSwitch.time s)
        (contextSwitch.pid, contextSwitch.tid) s

/-- The end of a thread is no earlier than `now`. -/
def closed (now : TimePoint) (s : Sampling) (w : SampleWriter) : Sampling :=
  if w.scope.isCpu then w.switchOut s.time s
  else w.switchOut (if now < s.time then s.time else now) s

/-- What a writer tells that is made at `start` and ends at `now`. -/
def samples (records : List Record) (start now : TimePoint) (w : SampleWriter) :
    List PathEvent :=
  (w.closed now (records.foldl w.advance ⟨none, start, []⟩)).log

/-- The context switches are those of the scope, and the samples have call
chains if these are recorded. -/
def Suits (w : SampleWriter) : Record → Prop
  | .sample sample => w.recordCallgraph = true → sample.nr ≠ 0
  | .mmap _ => True
  | .switchCpuWide _ => w.scope.isCpu = true
  | .switch _ => w.scope.isCpu = false

/-- The same location, clock and storage. -/
structure Like (w next : SampleWriter) : Prop where
  scope : next.scope = w.scope
  recordCallgraph : next.recordCallgraph = w.recordCallgraph
  timeConverter : next.timeConverter = w.timeConverter
  unwritten : next.unwritten = w.unwritten

theorem Like.trans {last : SampleWriter} (first : Like w next)
    (second : Like next last) : Like w last :=
  ⟨second.scope.trans first.scope,
    second.recordCallgraph.trans first.recordCallgraph,
    second.timeConverter.trans first.timeConverter,
    second.unwritten.trans first.unwritten⟩

theorem Like.contextsOf (like : Like w next) (ids : UInt32 × UInt32) :
    next.contextsOf ids = w.contextsOf ids := by
  rw [SampleWriter.contextsOf, SampleWriter.contextsOf, like.unwritten]

theorem Like.inside (like : Like w next) (s : Sampling) :
    next.inside s = w.inside s := by
  simp only [SampleWriter.inside, like.contextsOf]

theorem Like.switchIn (like : Like w next) (tp : TimePoint)
    (ids : UInt32 × UInt32) (s : Sampling) :
    next.switchIn tp ids s = w.switchIn tp ids s := by
  simp only [SampleWriter.switchIn, like.contextsOf]

theorem Like.switchOut (like : Like w next) (tp : TimePoint) (s : Sampling) :
    next.switchOut tp s = w.switchOut tp s := by
  simp only [SampleWriter.switchOut, like.contextsOf]

theorem Like.switched (like : Like w next) (misc : UInt16) (tp : TimePoint)
    (ids : UInt32 × UInt32) (s : Sampling) :
    next.switched misc tp ids s = w.switched misc tp ids s := by
  simp only [SampleWriter.switched, like.switchIn, like.switchOut]

theorem Like.chainOf (like : Like w next) (sample : RecordSample) :
    next.chainOf sample = w.chainOf sample := by
  rw [SampleWriter.chainOf, SampleWriter.chainOf, like.recordCallgraph]

theorem Like.advance (like : Like w next) (s : Sampling) (record : Record) :
    next.advance s record = w.advance s record := by
  cases record <;>
    simp only [SampleWriter.advance, sampled, adjusted, like.switchIn,
      like.switched, like.inside, like.chainOf, like.unwritten,
      like.timeConverter]

theorem Like.closed (like : Like w next) (now : TimePoint) (s : Sampling) :
    next.closed now s = w.closed now s := by
  simp only [SampleWriter.closed, like.switchOut, like.scope]

/-- The machine as a stack of contexts. -/
def contexts (s : Sampling) (w : SampleWriter) : ContextStack :=
  ⟨(w.inside s).reverse, s.log⟩

theorem Like.contexts (like : Like w next) (s : Sampling) :
    next.contexts s = w.contexts s := by
  rw [SampleWriter.contexts, SampleWriter.contexts, like.inside]

theorem enter_contexts (tp : TimePoint) (ids : UInt32 × UInt32) (s : Sampling)
    (w : SampleWriter) :
    (w.contexts s).enter tp 1 (w.contextsOf ids) =
      w.contexts (w.switchIn tp ids s) := by
  obtain ⟨current, time, log⟩ := s
  cases current with
  | none =>
      simp [contexts, inside, switchIn, contextsOf, ContextStack.enter,
        ContextStack.enterOne, ContextStack.push]
  | some current =>
      have process : (EnteredContext.process (processOf current.1)
          w.unwritten).differs (.process (processOf ids.1) w.unwritten) =
            false := EnteredContext.differs_of_type rfl
      have thread : (EnteredContext.thread (threadOf current.2)
          w.unwritten).differs (.thread (threadOf ids.2) w.unwritten) =
            false := EnteredContext.differs_of_type rfl
      simp [contexts, inside, switchIn, contextsOf, ContextStack.enter,
        ContextStack.enterOne, process, thread]

theorem leave_contexts (tp : TimePoint) (s : Sampling) (w : SampleWriter) :
    (w.contexts s).leave tp 1 = w.contexts (w.switchOut tp s) := by
  obtain ⟨current, time, log⟩ := s
  cases current <;>
    simp [contexts, inside, switchOut, contextsOf, ContextStack.leave,
      ContextStack.toLeave]

/-- The writer is in the process and the thread that the machine is in. -/
structure Plays (w : SampleWriter) (s : Sampling) : Prop where
  tree : w.localCctxTree.Plays (w.contexts s)
  time : w.lastTimePoint = s.time

theorem Plays.write (plays : w.Plays s) {event : TraceEvent}
    (other : event.cctxRef? = none) : (w.write event).Plays s :=
  ⟨plays.tree.write other, plays.time⟩

theorem Plays.beginThread (plays : w.Plays s) (thread : Thread)
    (tp : TimePoint) :
    (w.beginThread thread tp).Plays s ∧ Like w (w.beginThread thread tp) := by
  rw [SampleWriter.beginThread]
  split_ifs
  · have other : (TraceEvent.threadBegin tp
        (w.trace.processComm thread)).cctxRef? = none := rfl
    have begun := plays.write other
    exact ⟨⟨begun.tree, begun.time⟩, ⟨rfl, rfl, rfl, rfl⟩⟩
  · exact ⟨plays, ⟨rfl, rfl, rfl, rfl⟩⟩

theorem Plays.adjustTimepoints (plays : w.Plays s) (time : UInt64) :
    ∃ next, w.adjustTimepoints (w.timeConverter.convert time) =
        (next, w.adjusted time s) ∧
      next.Plays { s with time := w.adjusted time s } ∧ Like w next := by
  have same : (w.adjustTimepoints (w.timeConverter.convert time)).2 =
      w.adjusted time s := by
    rw [SampleWriter.adjustTimepoints, adjusted, plays.time]
  exact ⟨_, Prod.ext rfl same, ⟨plays.tree, same⟩, ⟨rfl, rfl, rfl, rfl⟩⟩

theorem Plays.switchIn (plays : w.Plays s) (pid tid : UInt32) :
    ∃ next, w.updateCallingContext (processOf pid) (threadOf tid) s.time false =
        .ok next ∧
      next.Plays (w.switchIn s.time (pid, tid) s) ∧ Like w next := by
  obtain ⟨begun, like⟩ := plays.beginThread (threadOf tid) s.time
  have definable :
      ¬ (EnteredContext.process (processOf pid) w.unwritten).NeedsParent := by
    simp [EnteredContext.NeedsParent, EnteredContext.type_process]
  obtain ⟨tree, entered, there⟩ := begun.tree.enter s.time definable
    [.thread (threadOf tid) w.unwritten]
  have updated : w.updateCallingContext (processOf pid) (threadOf tid) s.time
      false = .ok { w.beginThread (threadOf tid) s.time with
        localCctxTree := tree } := by
    rw [updateCallingContext, if_neg Bool.false_ne_true]
    simp only [like.unwritten, cctxLevelProcess, entered]
  have alike : Like w { w.beginThread (threadOf tid) s.time with
      localCctxTree := tree } :=
    ⟨like.scope, like.recordCallgraph, like.timeConverter, like.unwritten⟩
  refine ⟨_, updated, ⟨?_, ?_⟩, alike⟩
  · have moved := enter_contexts s.time (pid, tid) s w
    rw [← like.contexts] at moved
    rw [alike.contexts, ← moved]
    exact there
  · rw [SampleWriter.switchIn]
    split <;> exact begun.time

theorem Plays.switchOut (plays : w.Plays s) (pid tid : UInt32) :
    ∃ next, w.updateCallingContext (processOf pid) (threadOf tid) s.time true =
        .ok next ∧
      next.Plays (w.switchOut s.time s) ∧ Like w next := by
  refine ⟨{ w with localCctxTree := w.localCctxTree.cctxLeave s.time 1 }, rfl,
    ⟨?_, ?_⟩, ⟨rfl, rfl, rfl, rfl⟩⟩
  · have left := plays.tree.leave s.time 1
    rw [leave_contexts] at left
    exact left
  · rw [SampleWriter.switchOut]
    split <;> exact plays.time

theorem Plays.switched (plays : w.Plays s) (misc : UInt16) (pid tid : UInt32) :
    ∃ next, w.updateCallingContext (processOf pid) (threadOf tid) s.time
        (switchOutBit misc) = .ok next ∧
      next.Plays (w.switched misc s.time (pid, tid) s) ∧ Like w next := by
  rw [SampleWriter.switched]
  cases switchOutBit misc with
  | true => exact plays.switchOut pid tid
  | false => exact plays.switchIn pid tid

theorem switchIn_inside (tp : TimePoint) (ids : UInt32 × UInt32) (s : Sampling)
    (w : SampleWriter) : w.inside (w.switchIn tp ids s) ≠ [] := by
  obtain ⟨current, time, log⟩ := s
  cases current <;> simp [SampleWriter.switchIn, inside, contextsOf]

theorem switchIn_timed (tp other : TimePoint) (ids : UInt32 × UInt32)
    (s : Sampling) (w : SampleWriter) :
    w.switchIn tp ids { s with time := other } = w.switchIn tp ids s := by
  cases s
  rfl

theorem switched_timed (misc : UInt16) (tp other : TimePoint)
    (ids : UInt32 × UInt32) (s : Sampling) (w : SampleWriter) :
    w.switched misc tp ids { s with time := other } =
      w.switched misc tp ids s := by
  cases s
  rfl

theorem Plays.cctxSample (plays : w.Plays s) (entered : w.inside s ≠ [])
    {sample : RecordSample}
    (hasIp : w.recordCallgraph = true → sample.nr ≠ 0) (tp : TimePoint) :
    ∃ tree, w.cctxSample sample tp = .ok tree ∧
      tree.Plays ⟨(w.inside s).reverse, s.log ++ [.sample tp (w.inside s ++
        LocalCctxTree.chainPath (w.chainOf sample).1 w.unwritten)
        (w.chainOf sample).2]⟩ := by
  have level : 1 ≤ w.localCctxTree.curLevel := by
    rw [plays.tree.curLevel, contexts, List.length_reverse]
    exact List.length_pos_iff.mpr entered
  rw [SampleWriter.cctxSample, chainOf]
  split_ifs with callgraph
  · have allowed : CctxCall.Allowed w.localCctxTree
        (.sample tp sample.nr sample.ips w.unwritten) :=
      ⟨level, hasIp callgraph⟩
    obtain ⟨tree, called, there⟩ := plays.tree.call allowed trivial
    refine ⟨tree, called, ?_⟩
    simpa [ContextStack.call, ContextStack.sample, contexts] using there
  · have allowed : CctxCall.Allowed w.localCctxTree
        (.sampleIp tp sample.ip w.unwritten) := ⟨level, trivial⟩
    obtain ⟨tree, called, there⟩ := plays.tree.call allowed trivial
    refine ⟨tree, called, ?_⟩
    simpa [ContextStack.call, ContextStack.sample, contexts] using there

theorem Plays.handleSample (plays : w.Plays s) {sample : RecordSample}
    (hasIp : w.recordCallgraph = true → sample.nr ≠ 0) :
    ∃ next, w.handleSample sample = .ok next ∧
      next.Plays (w.sampled sample (w.adjusted sample.time s) s) ∧
        Like w next := by
  obtain ⟨start, adjusted, timed, like⟩ := plays.adjustTimepoints sample.time
  obtain ⟨inside, updated, there, alike⟩ :=
    timed.switchIn sample.pid sample.tid
  rw [like.switchIn, switchIn_timed] at there
  have both := like.trans alike
  have entered := switchIn_inside (w.adjusted sample.time s)
    (sample.pid, sample.tid) s w
  rw [← both.inside] at entered
  obtain ⟨tree, sampled, ends⟩ := there.cctxSample entered
    (both.recordCallgraph.symm ▸ hasIp) (w.adjusted sample.time s)
  have handled : w.handleSample sample =
      .ok { inside with localCctxTree := tree } := by
    rw [SampleWriter.handleSample, adjusted]
    simp only [updated, sampled]
  have alike' : Like w { inside with localCctxTree := tree } :=
    both.trans ⟨rfl, rfl, rfl, rfl⟩
  refine ⟨_, handled, ⟨?_, ?_⟩, alike'⟩
  · rw [both.inside, both.chainOf, both.unwritten] at ends
    rw [alike'.contexts, contexts, SampleWriter.sampled]
    exact ends
  · rw [SampleWriter.sampled]
    have same := there.time
    rw [SampleWriter.switchIn] at same
    split at same <;> exact same

theorem Plays.handle (plays : w.Plays s) {record : Record}
    (suits : w.Suits record) :
    ∃ next, w.handle record = .ok next ∧ next.Plays (w.advance s record) ∧
      Like w next := by
  cases record with
  | sample sample => exact plays.handleSample suits
  | mmap mmapEvent =>
      exact ⟨w.handleMmap mmapEvent, rfl, ⟨plays.tree, plays.time⟩,
        ⟨rfl, rfl, rfl, rfl⟩⟩
  | switchCpuWide contextSwitch =>
      obtain ⟨start, adjusted, timed, like⟩ :=
        plays.adjustTimepoints contextSwitch.time
      obtain ⟨next, updated, there, alike⟩ := timed.switched contextSwitch.misc
        contextSwitch.pid contextSwitch.tid
      rw [like.switched, switched_timed] at there
      refine ⟨next, ?_, there, like.trans alike⟩
      have onCpu : w.scope.isCpu = true := suits
      rw [SampleWriter.handle, handleSwitchCpuWide, onCpu, if_neg (by simp),
        adjusted]
      exact updated
  | switch contextSwitch =>
      obtain ⟨start, adjusted, timed, like⟩ :=
        plays.adjustTimepoints contextSwitch.time
      obtain ⟨next, updated, there, alike⟩ := timed.switched contextSwitch.misc
        contextSwitch.pid contextSwitch.tid
      rw [like.switched, switched_timed] at there
      have written : (TraceEvent.metric (w.adjusted contextSwitch.time s)
        (cpuidValue contextSwitch)).cctxRef? = none := rfl
      refine ⟨_, ?_, there.write written,
        (like.trans alike).trans ⟨rfl, rfl, rfl, rfl⟩⟩
      have offCpu : w.scope.isCpu = false := suits
      rw [SampleWriter.handle, handleSwitch, offCpu, if_neg (by simp), adjusted]
      simp only [updated]

theorem Plays.run (plays : w.Plays s) {records : List Record}
    (suits : ∀ record ∈ records, w.Suits record) :
    ∃ final, Foundation.run SampleWriter.handle w records = .ok final ∧
      final.Plays (records.foldl w.advance s) ∧ Like w final := by
  induction records generalizing w s with
  | nil => exact ⟨w, rfl, plays, ⟨rfl, rfl, rfl, rfl⟩⟩
  | cons record records induction =>
      obtain ⟨next, handled, there, like⟩ :=
        plays.handle (suits record List.mem_cons_self)
      have suitsNext : ∀ record ∈ records, next.Suits record := by
        intro other member
        have old := suits other (List.mem_cons_of_mem _ member)
        cases other with
        | sample =>
            rw [Suits, like.recordCallgraph]
            exact old
        | mmap => trivial
        | switchCpuWide =>
            rw [Suits, like.scope]
            exact old
        | switch =>
            rw [Suits, like.scope]
            exact old
      have moves : next.advance = w.advance :=
        funext fun s => funext fun record => like.advance s record
      obtain ⟨final, ran, ends, alike⟩ := induction there suitsNext
      rw [moves] at ends
      exact ⟨final, by rw [Foundation.run, handled]; exact ran, ends,
        like.trans alike⟩

/-- The writer of a thread or a CPU. -/
def Monitored : ExecutionScope → Prop
  | .process _ => False
  | _ => True

theorem Plays.destroy (plays : w.Plays s) :
    ∃ location : Location, location.tree = w.destroy.localCctxTree ∧
      location.meaning = (w.switchOut s.time s).log := by
  obtain ⟨location, closed, meaning⟩ := plays.tree.close w.lastTimePoint
  refine ⟨location, closed, meaning.trans ?_⟩
  rw [leave_contexts, plays.time]
  rfl

theorem Plays.closed (plays : w.Plays s) (now : TimePoint)
    (monitored : Monitored w.scope) :
    ∃ final, w.end_ now = .ok final ∧ ∃ location : Location,
      location.tree = final.destroy.localCctxTree ∧
      location.meaning = (w.closed now s).log := by
  cases scope : w.scope with
  | process _ =>
      rw [scope] at monitored
      exact monitored.elim
  | cpu _ =>
      have onCpu : w.scope.isCpu = true := by rw [scope]; rfl
      obtain ⟨location, closed, meaning⟩ := plays.destroy
      rw [end_, onCpu, if_pos rfl, SampleWriter.closed, onCpu, if_pos rfl]
      exact ⟨w, rfl, location, closed, meaning⟩
  | thread thread =>
      have offCpu : w.scope.isCpu = false := by rw [scope]; rfl
      let last := if now < s.time then s.time else now
      let timed := { w with lastTimePoint := last }
      have adjusted : w.adjustTimepoints now = (timed, last) := by
        rw [SampleWriter.adjustTimepoints, plays.time]
      have asThread : timed.scope.asThread = .ok thread := by
        rw [show timed.scope = .thread thread from scope]
        rfl
      have there : timed.Plays { s with time := last } := ⟨plays.tree, rfl⟩
      have begun : ∃ begun : SampleWriter,
          (if timed.firstEvent then timed.write (.threadBegin
            timed.firstTimePoint (timed.trace.processComm thread)) else timed) =
              begun ∧ begun.Plays { s with time := last } ∧ Like w begun := by
        refine ⟨_, rfl, ?_⟩
        have other : (TraceEvent.threadBegin timed.firstTimePoint
          (timed.trace.processComm thread)).cctxRef? = none := rfl
        split_ifs
        · exact ⟨there.write other, ⟨rfl, rfl, rfl, rfl⟩⟩
        · exact ⟨there, ⟨rfl, rfl, rfl, rfl⟩⟩
      obtain ⟨begun, same, begunPlays, like⟩ := begun
      have other : (TraceEvent.threadEnd begun.lastTimePoint
        (timed.trace.processComm thread)).cctxRef? = none := rfl
      have ended : w.end_ now = .ok (begun.write (.threadEnd begun.lastTimePoint
          (timed.trace.processComm thread))) := by
        rw [end_, offCpu, if_neg (by simp), adjusted]
        simp only [asThread, same]
      obtain ⟨location, closed, meaning⟩ := (begunPlays.write other).destroy
      refine ⟨_, ended, location, closed, meaning.trans ?_⟩
      have alike : Like w (begun.write (.threadEnd begun.lastTimePoint
          (timed.trace.processComm thread))) :=
        like.trans ⟨rfl, rfl, rfl, rfl⟩
      rw [SampleWriter.closed, offCpu, if_neg (by simp), alike.switchOut]
      rfl

theorem exists_location (scope : ExecutionScope) (monitored : Monitored scope)
    (trace : Trace) (recordCallgraph : Bool) (timeConverter : Converter)
    (unwritten : UnwrittenWords) (interruptGenerator : Nat)
    (start now : TimePoint) (records : List Record) :
    let w := init scope trace recordCallgraph timeConverter unwritten
      interruptGenerator start
    (∀ record ∈ records, w.Suits record) →
    ∃ final, w.lifetime records now = .ok final ∧ ∃ location : Location,
      location.tree = final.localCctxTree ∧
      location.meaning = w.samples records start now := by
  intro w suits
  have plays : w.Plays ⟨none, start, []⟩ := ⟨.init interruptGenerator, rfl⟩
  obtain ⟨reached, ran, there, like⟩ := plays.run suits
  have monitored' : Monitored reached.scope := like.scope.symm ▸ monitored
  obtain ⟨final, ended, location, closed, meaning⟩ := there.closed now monitored'
  refine ⟨final.destroy, ?_, location, closed, ?_⟩
  · rw [lifetime, ran]
    simp only [ended]
  · rw [meaning, like.closed, samples]

/-- The process and the thread a record is about. -/
def idsOf : Record → Option (UInt32 × UInt32)
  | .sample sample => some (sample.pid, sample.tid)
  | .mmap _ => none
  | .switchCpuWide contextSwitch => some (contextSwitch.pid, contextSwitch.tid)
  | .switch contextSwitch => some (contextSwitch.pid, contextSwitch.tid)

/-- The first thread since the last switch-out. -/
def firstSince (current : Option (UInt32 × UInt32)) (record : Record) :
    Option (UInt32 × UInt32) :=
  if record.isSwitchOut then none else current.or (idsOf record)

theorem advance_current (w : SampleWriter) (s : Sampling) (record : Record) :
    (w.advance s record).current = firstSince s.current record := by
  obtain ⟨current, time, log⟩ := s
  cases record with
  | sample sample => cases current <;> rfl
  | mmap mmapEvent => cases current <;> rfl
  | switchCpuWide contextSwitch =>
      rw [advance, switched, firstSince, Record.isSwitchOut]
      split_ifs <;> cases current <;> rfl
  | switch contextSwitch =>
      rw [advance, switched, firstSince, Record.isSwitchOut]
      split_ifs <;> cases current <;> rfl

/-- The contexts of a sample event. -/
def samplePath : PathEvent → Option (List EnteredContext)
  | .sample _ path _ => some path
  | _ => none

/-- The contexts a sample is about, told of a thread. -/
def toldOf (w : SampleWriter) (ids : UInt32 × UInt32) (sample : RecordSample) :
    List EnteredContext :=
  w.contextsOf ids ++
    LocalCctxTree.chainPath (w.chainOf sample).1 w.unwritten

/-- The contexts of its own thread. -/
def ownPath (w : SampleWriter) : Record → Option (List EnteredContext)
  | .sample sample => some (w.toldOf (sample.pid, sample.tid) sample)
  | _ => none

/-- The contexts of the first thread since the last switch-out. -/
def toldPath (w : SampleWriter) (current : Option (UInt32 × UInt32)) :
    Record → Option (List EnteredContext)
  | .sample sample =>
      some (w.toldOf (current.getD (sample.pid, sample.tid)) sample)
  | _ => none

def toldPaths (w : SampleWriter) :
    Option (UInt32 × UInt32) → List Record → List (List EnteredContext)
  | _, [] => []
  | current, record :: records => (w.toldPath current record).toList ++
      w.toldPaths (firstSince current record) records

theorem advance_paths (w : SampleWriter) (s : Sampling) (record : Record) :
    (w.advance s record).log.filterMap samplePath =
      s.log.filterMap samplePath ++ (w.toldPath s.current record).toList := by
  obtain ⟨current, time, log⟩ := s
  cases record with
  | sample sample =>
      cases current with
      | none =>
          rw [advance, sampled, switchIn, toldPath, List.filterMap_append,
            List.filterMap_append, List.append_assoc]
          rfl
      | some current =>
          rw [advance, sampled, switchIn, toldPath, List.filterMap_append]
          rfl
  | mmap mmapEvent => simp [advance, toldPath]
  | switchCpuWide contextSwitch =>
      rw [advance, switched]
      split_ifs <;> cases current <;>
        simp [switchIn, switchOut, samplePath, toldPath]
  | switch contextSwitch =>
      rw [advance, switched]
      split_ifs <;> cases current <;>
        simp [switchIn, switchOut, samplePath, toldPath]

theorem foldl_paths (w : SampleWriter) (records : List Record) (s : Sampling) :
    (records.foldl w.advance s).log.filterMap samplePath =
      s.log.filterMap samplePath ++ w.toldPaths s.current records := by
  induction records generalizing s with
  | nil => rw [toldPaths, List.append_nil, List.foldl_nil]
  | cons record records induction =>
      rw [List.foldl_cons, induction, advance_paths, advance_current, toldPaths,
        List.append_assoc]

theorem samples_paths (w : SampleWriter) (records : List Record)
    (start now : TimePoint) :
    (w.samples records start now).filterMap samplePath =
      w.toldPaths none records := by
  have leaves : ∀ tp s, (w.switchOut tp s).log.filterMap samplePath =
      s.log.filterMap samplePath := by
    intro tp s
    obtain ⟨current, time, log⟩ := s
    cases current <;> simp [switchOut, samplePath]
  have told := foldl_paths w records ⟨none, start, []⟩
  rw [List.filterMap_nil, List.nil_append] at told
  rw [samples, closed]
  split_ifs <;> rw [leaves, told]

theorem contextsOf_injective (w : SampleWriter) {left right : UInt32 × UInt32}
    (same : w.contextsOf left = w.contextsOf right) : left = right := by
  have words := congrArg (List.map fun cctx => cctx.context.word0) same
  obtain ⟨pid, words⟩ := List.cons.inj words
  obtain ⟨tid, _⟩ := List.cons.inj words
  have widened : ∀ {left right : UInt32},
      left.toUInt64.toInt64.toUInt64 = right.toUInt64.toInt64.toUInt64 →
        left = right := by
    intro left right same
    rw [UInt64.toUInt64_toInt64, UInt64.toUInt64_toInt64] at same
    exact UInt32.toUInt64_inj.mp same
  exact Prod.ext (widened pid) (widened tid)

/-- No sample comes while another thread is the first one. -/
def Undisturbed (current : Option (UInt32 × UInt32)) (records : List Record) :
    Prop :=
  ∀ earlier sample later, records = earlier ++ .sample sample :: later →
    ∀ ids, earlier.foldl firstSince current = some ids →
      ids = (sample.pid, sample.tid)

theorem undisturbed_cons_iff {current : Option (UInt32 × UInt32)}
    {record : Record} {records : List Record} :
    Undisturbed current (record :: records) ↔
      (∀ sample, record = .sample sample → ∀ ids, current = some ids →
        ids = (sample.pid, sample.tid)) ∧
      Undisturbed (firstSince current record) records := by
  constructor
  · intro undisturbed
    constructor
    · rintro sample rfl ids here
      exact undisturbed [] sample records rfl ids here
    · intro earlier sample later same ids here
      exact undisturbed (record :: earlier) sample later (by rw [same]; rfl)
        ids here
  · intro both earlier sample later same ids here
    obtain ⟨first, rest⟩ := both
    cases earlier with
    | nil =>
        obtain ⟨rfl, rfl⟩ := List.cons.inj same
        exact first sample rfl ids here
    | cons other earlier =>
        obtain ⟨rfl, below⟩ := List.cons.inj same
        exact rest earlier sample later below ids here

/-- Every sample is told of its own thread if and only if none is disturbed. -/
theorem toldPaths_iff (w : SampleWriter) (current : Option (UInt32 × UInt32))
    (records : List Record) :
    w.toldPaths current records = records.filterMap w.ownPath ↔
      Undisturbed current records := by
  induction records generalizing current with
  | nil =>
      refine iff_of_true rfl fun earlier sample later same => ?_
      simp at same
  | cons record records induction =>
      have ownPaths : (record :: records).filterMap w.ownPath =
          (w.ownPath record).toList ++ records.filterMap w.ownPath := by
        rw [List.filterMap_cons]
        cases w.ownPath record <;> rfl
      rw [undisturbed_cons_iff, ← induction, toldPaths, ownPaths]
      cases record with
      | sample sample =>
          have own : w.toldOf (current.getD (sample.pid, sample.tid)) sample =
                w.toldOf (sample.pid, sample.tid) sample ↔
              ∀ ids, current = some ids → ids = (sample.pid, sample.tid) := by
            rw [toldOf, toldOf, List.append_cancel_right_eq]
            cases current with
            | none => simp
            | some ids =>
                simp only [Option.getD_some, Option.some.injEq, forall_eq']
                exact ⟨w.contextsOf_injective, fun same => by rw [same]⟩
          simp only [toldPath, ownPath, Option.toList_some, List.singleton_append,
            List.cons.injEq, own, Record.sample.injEq, forall_eq']
      | mmap mmapEvent => simp [toldPath, ownPath]
      | switchCpuWide contextSwitch => simp [toldPath, ownPath]
      | switch contextSwitch => simp [toldPath, ownPath]

/-- For any records that suit the writer, the location has one sample event for
each sample, in the contexts of the first thread since the last switch-out.
These are the contexts of the thread itself if and only if no sample comes while
another thread is the first one. -/
theorem samples_told (scope : ExecutionScope) (monitored : Monitored scope)
    (trace : Trace) (recordCallgraph : Bool) (timeConverter : Converter)
    (unwritten : UnwrittenWords) (interruptGenerator : Nat)
    (start now : TimePoint) (records : List Record)
    (suits : ∀ record ∈ records, (init scope trace recordCallgraph
      timeConverter unwritten interruptGenerator start).Suits record) :
    let w := init scope trace recordCallgraph timeConverter unwritten
      interruptGenerator start
    ∃ final, w.lifetime records now = .ok final ∧ ∃ location : Location,
      location.tree = final.localCctxTree ∧
      location.meaning = w.samples records start now ∧
      location.meaning.filterMap samplePath = w.toldPaths none records ∧
      (location.meaning.filterMap samplePath = records.filterMap w.ownPath ↔
        Undisturbed none records) := by
  intro w
  obtain ⟨final, lived, location, closed, meaning⟩ := exists_location scope
    monitored trace recordCallgraph timeConverter unwritten interruptGenerator
    start now records suits
  have told := w.samples_paths records start now
  refine ⟨final, lived, location, closed, meaning, ?_, ?_⟩
  · rw [meaning, told]
  · rw [meaning, told, toldPaths_iff]

/-- The switch-out of the first thread and the switch-in of the second one have
been lost. -/
def lostSwitch : List Record :=
  [.switchCpuWide ⟨0, 1, 7, 10⟩,
    .sample ⟨0x400, 1, 8, 20, 2, fun i => [0x400, 0x500].get i⟩]

theorem samples_told_lostSwitch :
    let w := init (.cpu 0) ⟨fun _ => 0⟩ true ⟨0⟩ ⟨0, 0, 0⟩ 0 5
    ∃ final, w.lifetime lostSwitch 30 = .ok final ∧ ∃ location : Location,
      location.tree = final.localCctxTree ∧
      location.meaning.filterMap samplePath ≠
        lostSwitch.filterMap w.ownPath := by
  intro w
  have suits : ∀ record ∈ lostSwitch, w.Suits record := by
    simp [lostSwitch, Suits, w, init, ExecutionScope.isCpu]
  obtain ⟨final, lived, location, closed, _, _, own⟩ := samples_told (.cpu 0)
    trivial ⟨fun _ => 0⟩ true ⟨0⟩ ⟨0, 0, 0⟩ 0 5 30 lostSwitch suits
  refine ⟨final, lived, location, closed, fun same => ?_⟩
  have disturbed := own.mp same [.switchCpuWide ⟨0, 1, 7, 10⟩] _ [] rfl (1, 7)
    (by decide)
  exact absurd disturbed (by decide)

end SampleWriter

end Lo2s
