import Lo2s.Foundation.Run
import Lo2s.LocalCctxTree

/-!
# The sample writer

`perf::sample::Writer` turns the records of one perf buffer into the events of
one location, and keeps the memory mappings it is told of for later.
-/

namespace Lo2s

open Foundation

/-- `Reader::RecordSampleType`. -/
structure RecordSample where
  ip : UInt64
  pid : UInt32
  tid : UInt32
  time : UInt64
  nr : UInt64
  ips : Fin nr.toNat → UInt64

/-- `RecordMmapType`. -/
structure RecordMmap where
  pid : UInt32
  tid : UInt32
  addr : UInt64
  len : UInt64
  pgoff : UInt64
  filename : String
  deriving DecidableEq, Repr

/-- `RecordSwitchType`; `misc` is the one of its header. -/
structure RecordSwitch where
  misc : UInt16
  pid : UInt32
  tid : UInt32
  time : UInt64
  cpu : UInt32
  deriving DecidableEq, Repr

/-- `RecordSwitchCpuWideType`. -/
structure RecordSwitchCpuWide where
  misc : UInt16
  pid : UInt32
  tid : UInt32
  time : UInt64
  deriving DecidableEq, Repr

/-- `header.misc & PERF_RECORD_MISC_SWITCH_OUT`. -/
def switchOutBit (misc : UInt16) : Bool := misc &&& 0x2000 ≠ 0

/-- The records the writer handles. -/
inductive Record where
  | sample (sample : RecordSample)
  | mmap (mmapEvent : RecordMmap)
  | switchCpuWide (contextSwitch : RecordSwitchCpuWide)
  | switch (contextSwitch : RecordSwitch)

/-- What a writer asks of the trace: the reference of the `comm` definition of
the process a thread belongs to. -/
structure Trace where
  processComm : Thread → Nat

/-- `sample::Writer`.  `unwritten` fills the words of a calling context that
its constructor does not write. -/
structure SampleWriter where
  scope : ExecutionScope
  trace : Trace
  recordCallgraph : Bool
  timeConverter : Converter
  unwritten : UnwrittenWords
  localCctxTree : LocalCctxTree
  cachedMmapEvents : List RecordMmap
  firstEvent : Bool
  firstTimePoint : TimePoint
  lastTimePoint : TimePoint

namespace SampleWriter

/-- The constructor; `now` is what `time::now()` returns. -/
def init (scope : ExecutionScope) (trace : Trace) (recordCallgraph : Bool)
    (timeConverter : Converter) (unwritten : UnwrittenWords)
    (interruptGenerator : Nat) (now : TimePoint) : SampleWriter :=
  { scope := scope
    trace := trace
    recordCallgraph := recordCallgraph
    timeConverter := timeConverter
    unwritten := unwritten
    localCctxTree := .init interruptGenerator
    cachedMmapEvents := []
    firstEvent := true
    firstTimePoint := now
    lastTimePoint := now }

def cctxLevelProcess : Nat := 1

/-- `local_cctx_tree_.writer() << event`. -/
def write (event : TraceEvent) (w : SampleWriter) : SampleWriter :=
  { w with localCctxTree := w.localCctxTree.write event }

def adjustTimepoints (tp : TimePoint) (w : SampleWriter) :
    SampleWriter × TimePoint :=
  let tp := if tp < w.lastTimePoint then w.lastTimePoint else tp
  ({ w with lastTimePoint := tp }, tp)

/-- The `thread_begin` of `update_calling_context`. -/
def beginThread (thread : Thread) (tp : TimePoint) (w : SampleWriter) :
    SampleWriter :=
  if w.firstEvent && !w.scope.isCpu then
    { w.write (.threadBegin tp (w.trace.processComm thread)) with
      firstEvent := false }
  else w

def updateCallingContext (process : Process) (thread : Thread) (tp : TimePoint)
    (switchOut : Bool) (w : SampleWriter) : Except Failure SampleWriter :=
  if switchOut then
    .ok { w with
      localCctxTree := w.localCctxTree.cctxLeave tp cctxLevelProcess }
  else
    let w := w.beginThread thread tp
    match w.localCctxTree.cctxEnter tp cctxLevelProcess
        [.process process w.unwritten, .thread thread w.unwritten] with
    | .error failure => .error failure
    | .ok tree => .ok { w with localCctxTree := tree }

/-- `Process(pid)` and `Thread(tid)` of a record. -/
def processOf (pid : UInt32) : Process := ⟨pid.toUInt64.toInt64⟩

def threadOf (tid : UInt32) : Thread := ⟨tid.toUInt64.toInt64⟩

/-- The two calls of `cctx_sample`. -/
def cctxSample (sample : RecordSample) (tp : TimePoint) (w : SampleWriter) :
    Except Failure LocalCctxTree :=
  if w.recordCallgraph then
    w.localCctxTree.cctxSample tp sample.nr sample.ips w.unwritten
  else w.localCctxTree.cctxSampleIp tp sample.ip w.unwritten

/-- `handle(const Reader::RecordSampleType*)`. -/
def handleSample (sample : RecordSample) (w : SampleWriter) :
    Except Failure SampleWriter :=
  let (w, tp) := w.adjustTimepoints (w.timeConverter.convert sample.time)
  match w.updateCallingContext (processOf sample.pid) (threadOf sample.tid) tp
      false with
  | .error failure => .error failure
  | .ok w =>
      match w.cctxSample sample tp with
      | .error failure => .error failure
      | .ok tree => .ok { w with localCctxTree := tree }

/-- `handle(const RecordMmapType*)`; another thread than the one of the scope
is only warned about. -/
def handleMmap (mmapEvent : RecordMmap) (w : SampleWriter) : SampleWriter :=
  { w with cachedMmapEvents := w.cachedMmapEvents ++ [mmapEvent] }

/-- `handle(const Reader::RecordSwitchCpuWideType*)`. -/
def handleSwitchCpuWide (contextSwitch : RecordSwitchCpuWide)
    (w : SampleWriter) : Except Failure SampleWriter :=
  if !w.scope.isCpu then .error (.assertion "scope_.is_cpu()")
  else
    let (w, tp) :=
      w.adjustTimepoints (w.timeConverter.convert contextSwitch.time)
    w.updateCallingContext (processOf contextSwitch.pid)
      (threadOf contextSwitch.tid) tp (switchOutBit contextSwitch.misc)

/-- The value of the cpuid metric. -/
def cpuidValue (contextSwitch : RecordSwitch) : Int64 :=
  if switchOutBit contextSwitch.misc then -1
  else contextSwitch.cpu.toUInt64.toInt64

/-- `handle(const Reader::RecordSwitchType*)`. -/
def handleSwitch (contextSwitch : RecordSwitch) (w : SampleWriter) :
    Except Failure SampleWriter :=
  if w.scope.isCpu then .error (.assertion "!scope_.is_cpu()")
  else
    let (w, tp) :=
      w.adjustTimepoints (w.timeConverter.convert contextSwitch.time)
    match w.updateCallingContext (processOf contextSwitch.pid)
        (threadOf contextSwitch.tid) tp (switchOutBit contextSwitch.misc) with
    | .error failure => .error failure
    | .ok w => .ok (w.write (.metric tp (cpuidValue contextSwitch)))

/-- `handle`, by the type of the record. -/
def handle (w : SampleWriter) : Record → Except Failure SampleWriter
  | .sample sample => w.handleSample sample
  | .mmap mmapEvent => .ok (w.handleMmap mmapEvent)
  | .switchCpuWide contextSwitch => w.handleSwitchCpuWide contextSwitch
  | .switch contextSwitch => w.handleSwitch contextSwitch

/-- `end()`; `now` is what `time::now()` returns. -/
def end_ (now : TimePoint) (w : SampleWriter) : Except Failure SampleWriter :=
  if w.scope.isCpu then .ok w
  else
    let (w, _) := w.adjustTimepoints now
    match w.scope.asThread with
    | .error failure => .error failure
    | .ok thread =>
        let comm := w.trace.processComm thread
        let w :=
          if w.firstEvent then w.write (.threadBegin w.firstTimePoint comm)
          else w
        .ok (w.write (.threadEnd w.lastTimePoint comm))

/-- The destructor. -/
def destroy (w : SampleWriter) : SampleWriter :=
  { w with
    localCctxTree :=
      (w.localCctxTree.cctxLeave w.lastTimePoint cctxLevelProcess).finalize }

/-- The life of a writer: its records, then `end()`, then the destructor. -/
def lifetime (records : List Record) (now : TimePoint) (w : SampleWriter) :
    Except Failure SampleWriter :=
  match run handle w records with
  | .error failure => .error failure
  | .ok w =>
      match w.end_ now with
      | .error failure => .error failure
      | .ok w => .ok w.destroy

/-- The events of the location, in writing order. -/
def events (w : SampleWriter) : List TraceEvent := w.localCctxTree.writer

end SampleWriter

end Lo2s
