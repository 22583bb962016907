import Lo2s.Foundation.Registry
import Lo2s.ProcessController
import Lo2s.TraceProcesses
import Mathlib.Data.UInt

/-!
# The POSIX I/O monitor

`PosixMonitor` turns the events of a BPF program into I/O operations.  An event
that ends a read or a write does not say which file it is about, so the monitor
remembers the last operation of each thread; and as a file descriptor is used
for one file after the other, it counts the `open()`s that returned it.

The registry of I/O handles is a parameter.
-/

namespace Lo2s

open Foundation

/-- A thread, by the `pid_t` the kernel names it with. -/
def Thread.ofPid (pid : Int32) : Thread := ⟨pid.toInt64⟩

/-- `PosixMonitor::ThreadFd`. -/
structure ThreadFd where
  fd : Int32
  thread : Thread
  deriving DecidableEq, Repr

/-- The constructor, which takes a `pid_t`. -/
def ThreadFd.ofPid (fd pid : Int32) : ThreadFd := ⟨fd, .ofPid pid⟩

structure ThreadFdInstance where
  thread : Thread
  fd : Int32
  instanceNumber : Int32
  deriving DecidableEq, Repr

/-- `posix_event_header`; the type is the constructor of `PosixEvent`. -/
structure PosixEventHeader where
  time : UInt64
  pid : Int32
  fd : Int32
  deriving DecidableEq, Repr

namespace PosixEventHeader

def thread (header : PosixEventHeader) : Thread := .ofPid header.pid

def threadFd (header : PosixEventHeader) : ThreadFd :=
  .ofPid header.fd header.pid

theorem threadFd_eq (header : PosixEventHeader) :
    header.threadFd = ⟨header.fd, header.thread⟩ := rfl

/-- The name of a standard stream. -/
def standardName (header : PosixEventHeader) : String :=
  if header.fd = 0 then "stdin"
  else if header.fd = 1 then "stdout"
  else if header.fd = 2 then "stderr"
  else ""

end PosixEventHeader

structure ReadWriteEvent where
  header : PosixEventHeader
  buf : Int64
  count : Int64
  deriving DecidableEq, Repr

/-- The events of the BPF program.  A read or a write is entered and exited;
the BPF program leaves the `fd` of an exit as it was in memory. -/
inductive PosixEvent where
  | openFile (header : PosixEventHeader) (filename : String)
  | closeFile (header : PosixEventHeader)
  | enter (mode : IoOperationMode) (event : ReadWriteEvent)
  | exit (mode : IoOperationMode) (header : PosixEventHeader)
  deriving DecidableEq, Repr

def PosixEvent.header : PosixEvent → PosixEventHeader
  | .openFile header _ => header
  | .closeFile header => header
  | .enter _ event => event.header
  | .exit _ header => header

def PosixEvent.thread (event : PosixEvent) : Thread := event.header.thread

/-- The events the monitor writes. -/
inductive PosixIoEvent (η : Type) where
  | ioCreateHandle (tp : TimePoint) (handle : η)
  | ioDestroyHandle (tp : TimePoint) (handle : η)
  | ioOperationBegin (tp : TimePoint) (handle : η) (mode : IoOperationMode)
      (bytesRequest matchingId : UInt64)
  | ioOperationComplete (tp : TimePoint) (handle : η)
      (bytesResult matchingId : UInt64)
  deriving DecidableEq, Repr

def PosixIoEvent.handle {η : Type} : PosixIoEvent η → η
  | .ioCreateHandle _ handle => handle
  | .ioDestroyHandle _ handle => handle
  | .ioOperationBegin _ handle _ _ _ => handle
  | .ioOperationComplete _ handle _ _ => handle

/-- What an I/O handle is defined with: the name of its regular file, and the
communicator, which is the one of a process. -/
structure IoHandleDefinition where
  name : String
  comm : Process
  deriving DecidableEq, Repr

/-- `otf2::common::io_access_mode_type`, for handles that are pre-created. -/
inductive IoAccessMode where
  | readOnly
  | writeOnly
  deriving DecidableEq, Repr

/-- The parts of `trace::Trace` and of the monitor that stay as they are; `has`
tells which other definitions there are. -/
structure PosixTrace (ρ η : Type) where
  registry : Registry ρ ThreadFdInstance IoHandleDefinition η
  has : TraceKey → Bool
  groups : ExecutionScopeGroup
  timeConverter : Converter

/-- `PosixMonitor`, with the I/O handles of the trace and the events written so
far, each with the thread of its location. -/
structure PosixMonitor (ρ η : Type) where
  lastFd : FiniteMap Thread Int32
  lastCount : FiniteMap Thread UInt64
  lastBuf : FiniteMap Thread UInt64
  instances : FiniteMap ThreadFd Int32
  ioHandles : ρ
  preCreated : List (η × IoAccessMode)
  written : List (Thread × PosixIoEvent η)

variable {ρ η : Type}

namespace PosixTrace

/-- `posix_io_writer`, which fails for a thread without a parent or a parent
without a location group. -/
def posixIoWriter (trace : PosixTrace ρ η) (thread : Thread) :
    Except Failure Thread :=
  match trace.groups.lookup (.thread thread) with
  | none => .error .outOfRange
  | some parent =>
      if trace.has (.locationGroup parent) then .ok thread
      else .error .outOfRange

/-- The trace has been told of the thread, as `insert_thread` of the process
monitor does. -/
def Emplaced (trace : PosixTrace ρ η) (thread : Thread) : Prop :=
  ∃ process, trace.groups.lookup (.thread thread) = some (.process process) ∧
    trace.has (.locationGroup (.process process)) ∧
    trace.has (.comm process)

end PosixTrace

namespace PosixMonitor

/-- Before any thread is known. -/
def init (ioHandles : ρ) : PosixMonitor ρ η :=
  ⟨∅, ∅, ∅, ∅, ioHandles, [], []⟩

/-- `writer << event`. -/
def emit (location : Thread) (event : PosixIoEvent η) (m : PosixMonitor ρ η) :
    PosixMonitor ρ η :=
  { m with written := m.written ++ [(location, event)] }

def posixIoHandle (trace : PosixTrace ρ η) (id : ThreadFdInstance)
    (name : String) (m : PosixMonitor ρ η) :
    Except Failure (η × PosixMonitor ρ η) :=
  match trace.registry.find m.ioHandles id with
  | some handle => .ok (handle, m)
  | none =>
      match trace.groups.getProcess id.thread with
      | .error failure => .error failure
      | .ok process =>
          if trace.has (.comm process) then
            let (handle, ioHandles) :=
              trace.registry.emplace m.ioHandles id ⟨name, process⟩
            let mode : IoAccessMode :=
              if id.fd = 0 then .readOnly else .writeOnly
            .ok (handle, { m with
              ioHandles := ioHandles
              preCreated :=
                if id.fd < 3 then m.preCreated ++ [(handle, mode)]
                else m.preCreated })
          else .error .outOfRange

/-- The value of `instance_[file]`. -/
def instanceOf (file : ThreadFd) (m : PosixMonitor ρ η) : Int32 :=
  (m.instances.lookup file).getD 0

/-- The instance of the file now. -/
def fileInstance (file : ThreadFd) (m : PosixMonitor ρ η) : ThreadFdInstance :=
  ⟨file.thread, file.fd, m.instanceOf file⟩

/-- `instance_[file]`, which makes a 0 for a new file. -/
def touch (file : ThreadFd) (m : PosixMonitor ρ η) : PosixMonitor ρ η :=
  { m with instances := m.instances.insertIfNew file 0 }

/-- The reuse count of a file that is opened: 0 if there is none yet, and one
more otherwise. -/
def countOpen (file : ThreadFd) (m : PosixMonitor ρ η) : PosixMonitor ρ η :=
  { m with
    instances := m.instances.insert file
      (if file ∈ m.instances then m.instanceOf file + 1 else 0) }

/-- `insert_thread`, without the table of the BPF program. -/
def insertThread (thread : Thread) (m : PosixMonitor ρ η) : PosixMonitor ρ η :=
  { m with lastFd := m.lastFd.insert thread (-1) }

/-- `handle_event` on an `OPEN`. -/
def handleOpen (trace : PosixTrace ρ η) (header : PosixEventHeader)
    (filename : String) (m : PosixMonitor ρ η) :
    Except Failure (PosixMonitor ρ η) := do
  let file := header.threadFd
  let m := m.countOpen file
  let name := if 3 ≤ header.fd then filename else header.standardName
  let (handle, m) ← m.posixIoHandle trace (m.fileInstance file) name
  let writer ← trace.posixIoWriter header.thread
  return m.emit writer
    (.ioCreateHandle (trace.timeConverter.convert header.time) handle)

/-- `handle_event` on a `CLOSE`. -/
def handleClose (trace : PosixTrace ρ η) (header : PosixEventHeader)
    (m : PosixMonitor ρ η) : Except Failure (PosixMonitor ρ η) := do
  let file := header.threadFd
  let m := m.touch file
  let (handle, m) ←
    m.posixIoHandle trace (m.fileInstance file) header.standardName
  let writer ← trace.posixIoWriter header.thread
  return m.emit writer
    (.ioDestroyHandle (trace.timeConverter.convert header.time) handle)

/-- The data of an operation, kept for its end. -/
def remember (event : ReadWriteEvent) (m : PosixMonitor ρ η) :
    PosixMonitor ρ η :=
  { m with
    lastFd := m.lastFd.insert event.header.thread event.header.fd
    lastBuf := m.lastBuf.insert event.header.thread event.buf.toUInt64
    lastCount := m.lastCount.insert event.header.thread event.count.toUInt64 }

/-- `handle_event` on a `READ_ENTER` or `WRITE_ENTER`. -/
def handleEnter (trace : PosixTrace ρ η) (mode : IoOperationMode)
    (event : ReadWriteEvent) (m : PosixMonitor ρ η) :
    Except Failure (PosixMonitor ρ η) := do
  let file := event.header.threadFd
  let m := m.remember event
  let writer ← trace.posixIoWriter event.header.thread
  let m := m.touch file
  let (handle, m) ←
    m.posixIoHandle trace (m.fileInstance file) event.header.standardName
  return m.emit writer
    (.ioOperationBegin (trace.timeConverter.convert event.header.time) handle
      mode event.count.toUInt64 event.buf.toUInt64)

/-- `last_fd_[thread]`, which makes a 0 for a new thread. -/
def touchLastFd (thread : Thread) (m : PosixMonitor ρ η) : PosixMonitor ρ η :=
  { m with lastFd := m.lastFd.insertIfNew thread 0 }

/-- The value of `last_fd_[thread]`. -/
def lastFdOf (thread : Thread) (m : PosixMonitor ρ η) : Int32 :=
  (m.lastFd.lookup thread).getD 0

/-- The file of the operation the thread is in, if `last_fd_` is right. -/
def lastFile (thread : Thread) (m : PosixMonitor ρ η) : ThreadFd :=
  .ofPid (m.lastFdOf thread) thread.tid.toInt32

/-- `handle_event` on an exit of a thread whose last operation has not been
completed. -/
def complete (trace : PosixTrace ρ η) (header : PosixEventHeader)
    (m : PosixMonitor ρ η) : Except Failure (PosixMonitor ρ η) := do
  let thread := header.thread
  let file := m.lastFile thread
  let writer ← trace.posixIoWriter thread
  let m := m.touch file
  let (handle, m) ← m.posixIoHandle trace
    ⟨thread, file.fd, m.instanceOf file⟩ header.standardName
  let bytes := (m.lastCount.lookup thread).getD 0
  let buffer := (m.lastBuf.lookup thread).getD 0
  let m := { m with
    lastCount := m.lastCount.insertIfNew thread 0
    lastBuf := m.lastBuf.insertIfNew thread 0 }
  let m := m.emit writer
    (.ioOperationComplete (trace.timeConverter.convert header.time) handle
      bytes buffer)
  return { m with lastFd := m.lastFd.insert thread (-1) }

/-- `handle_event` on a `READ_EXIT` or `WRITE_EXIT`. -/
def handleExit (trace : PosixTrace ρ η) (header : PosixEventHeader)
    (m : PosixMonitor ρ η) : Except Failure (PosixMonitor ρ η) :=
  let m := m.touchLastFd header.thread
  if m.lastFdOf header.thread = -1 then .ok m else m.complete trace header

def handleEvent (trace : PosixTrace ρ η) (m : PosixMonitor ρ η) :
    PosixEvent → Except Failure (PosixMonitor ρ η)
  | .openFile header filename => m.handleOpen trace header filename
  | .closeFile header => m.handleClose trace header
  | .enter mode event => m.handleEnter trace mode event
  | .exit _ header => m.handleExit trace header

end PosixMonitor

/-- A call of `insert_thread`, or an event. -/
inductive PosixInput where
  | insertThread (thread : Thread)
  | event (event : PosixEvent)
  deriving DecidableEq, Repr

/-- The thread an input is about. -/
def PosixInput.thread : PosixInput → Thread
  | .insertThread thread => thread
  | .event handled => handled.thread

/-- The monitor after an input. -/
def PosixMonitor.step (trace : PosixTrace ρ η) (m : PosixMonitor ρ η) :
    PosixInput → Except Failure (PosixMonitor ρ η)
  | .insertThread thread => .ok (m.insertThread thread)
  | .event event => m.handleEvent trace event

namespace PosixMonitor

/-- The file an input is about and the event it writes with its handle, unless
it writes none. -/
def target? (trace : PosixTrace ρ η) (m : PosixMonitor ρ η) :
    PosixInput → Option (ThreadFd × (η → PosixIoEvent η))
  | .insertThread _ => none
  | .event (.openFile header _) =>
      some (header.threadFd,
        .ioCreateHandle (trace.timeConverter.convert header.time))
  | .event (.closeFile header) =>
      some (header.threadFd,
        .ioDestroyHandle (trace.timeConverter.convert header.time))
  | .event (.enter mode event) =>
      some (event.header.threadFd, fun handle =>
        .ioOperationBegin (trace.timeConverter.convert event.header.time)
          handle mode event.count.toUInt64 event.buf.toUInt64)
  | .event (.exit _ header) =>
      if m.lastFdOf header.thread = -1 then none
      else some (⟨m.lastFdOf header.thread, header.thread⟩, fun handle =>
        .ioOperationComplete (trace.timeConverter.convert header.time) handle
          ((m.lastCount.lookup header.thread).getD 0)
          ((m.lastBuf.lookup header.thread).getD 0))

/-- The monitor after an input, apart from the registry and the events. -/
def prepare (m : PosixMonitor ρ η) : PosixInput → PosixMonitor ρ η
  | .insertThread thread => m.insertThread thread
  | .event (.openFile header _) => m.countOpen header.threadFd
  | .event (.closeFile header) => m.touch header.threadFd
  | .event (.enter _ event) => (m.remember event).touch event.header.threadFd
  | .event (.exit _ header) =>
      let thread := header.thread
      let m := m.touchLastFd thread
      if m.lastFdOf thread = -1 then m
      else
        { m.touch ⟨m.lastFdOf thread, thread⟩ with
          lastCount := m.lastCount.insertIfNew thread 0
          lastBuf := m.lastBuf.insertIfNew thread 0
          lastFd := m.lastFd.insert thread (-1) }

/-- `final` is `m` with one more event, about the handle of `file`. -/
def Recorded (trace : PosixTrace ρ η) (file : ThreadFd)
    (event : η → PosixIoEvent η) (m final : PosixMonitor ρ η) : Prop :=
  ∃ handle ioHandles preCreated,
    trace.registry.find ioHandles (m.fileInstance file) = some handle ∧
    trace.registry.Extends m.ioHandles ioHandles ∧
    final = { m with
      ioHandles := ioHandles
      preCreated := preCreated
      written := m.written ++ [(file.thread, event handle)] }

/-- What is known of the monitor after an input. -/
def Stepped (trace : PosixTrace ρ η) (m : PosixMonitor ρ η)
    (input : PosixInput) (final : PosixMonitor ρ η) : Prop :=
  match m.target? trace input with
  | none => final = m.prepare input
  | some (file, event) => Recorded trace file event (m.prepare input) final

section

variable {trace : PosixTrace ρ η} {m next final : PosixMonitor ρ η}

private theorem posixIoHandle_spec (lawful : trace.registry.Lawful)
    {id : ThreadFdInstance} {name : String} {handle : η}
    (obtained : m.posixIoHandle trace id name = .ok (handle, next)) :
    trace.registry.find next.ioHandles id = some handle ∧
      trace.registry.Extends m.ioHandles next.ioHandles ∧
      next = { m with
        ioHandles := next.ioHandles
        preCreated := next.preCreated } := by
  unfold posixIoHandle at obtained
  split at obtained
  · rename_i found
    obtain ⟨rfl, rfl⟩ := Prod.mk.inj (Except.ok.inj obtained)
    exact ⟨found, .refl, rfl⟩
  · rename_i absent
    split at obtained
    · cases obtained
    · rename_i process _
      by_cases comm : trace.has (.comm process)
      · rw [if_pos comm] at obtained
        obtain ⟨rfl, rfl⟩ := Prod.mk.inj (Except.ok.inj obtained)
        refine ⟨?_, lawful.extends_emplace _ absent, rfl⟩
        rw [lawful.find_emplace id _ absent, if_pos rfl]
      · rw [if_neg comm] at obtained
        cases obtained

private theorem exists_posixIoHandle (file : ThreadFd)
    (emplaced : trace.Emplaced file.thread) (name : String)
    (m : PosixMonitor ρ η) :
    ∃ result,
      m.posixIoHandle trace (m.fileInstance file) name = .ok result := by
  obtain ⟨process, known, _, comm⟩ := emplaced
  unfold posixIoHandle
  split
  · exact ⟨_, rfl⟩
  · rw [fileInstance, ExecutionScopeGroup.getProcess, known]
    exact ⟨_, if_pos comm⟩

private theorem posixIoWriter_eq {thread writer : Thread}
    (found : trace.posixIoWriter thread = .ok writer) : writer = thread := by
  unfold PosixTrace.posixIoWriter at found
  split at found
  · cases found
  · split_ifs at found
    exact (Except.ok.inj found).symm

private theorem posixIoWriter_of_emplaced {thread : Thread}
    (emplaced : trace.Emplaced thread) :
    trace.posixIoWriter thread = .ok thread := by
  obtain ⟨process, known, group, _⟩ := emplaced
  rw [PosixTrace.posixIoWriter, known]
  exact if_pos group

/-- The handle of a file of the monitor and the event that is written with it,
where the monitor may change in between in other respects. -/
private theorem recorded_of_handle (lawful : trace.registry.Lawful)
    {file : ThreadFd} {name : String} {handle : η} {m' : PosixMonitor ρ η}
    (event : η → PosixIoEvent η)
    (obtained : m.posixIoHandle trace (m.fileInstance file) name =
      .ok (handle, next))
    (instances : m'.instances = m.instances)
    (ioHandles : m'.ioHandles = m.ioHandles)
    (same : final = { m' with
      ioHandles := next.ioHandles
      preCreated := next.preCreated
      written := m'.written ++ [(file.thread, event handle)] }) :
    Recorded trace file event m' final := by
  obtain ⟨found, extended, _⟩ := posixIoHandle_spec lawful obtained
  refine ⟨handle, next.ioHandles, next.preCreated, ?_, ioHandles ▸ extended,
    same⟩
  rw [fileInstance, instanceOf, instances]
  exact found

theorem lastFile_eq (header : PosixEventHeader) (m : PosixMonitor ρ η) :
    m.lastFile header.thread = ⟨m.lastFdOf header.thread, header.thread⟩ := by
  simp [lastFile, ThreadFd.ofPid, PosixEventHeader.thread, Thread.ofPid]

theorem lastFdOf_touchLastFd (thread : Thread) (m : PosixMonitor ρ η) :
    (m.touchLastFd thread).lastFdOf thread = m.lastFdOf thread := by
  simp [touchLastFd, lastFdOf, FiniteMap.lookup_insertIfNew]

theorem step_spec (lawful : trace.registry.Lawful) {input : PosixInput}
    (stepped : m.step trace input = .ok final) :
    Stepped trace m input final := by
  cases input with
  | insertThread thread => exact (Except.ok.inj stepped).symm
  | event event =>
  cases event with
  | openFile header filename =>
      obtain ⟨⟨handle, next⟩, obtained, stepped⟩ := bind_eq_ok_iff.mp stepped
      obtain ⟨writer, found, stepped⟩ := bind_eq_ok_iff.mp stepped
      have same := (posixIoHandle_spec lawful obtained).2.2
      refine recorded_of_handle lawful _ obtained rfl rfl ?_
      rw [posixIoWriter_eq found] at stepped
      rw [← Except.ok.inj stepped, same]
      rfl
  | closeFile header =>
      obtain ⟨⟨handle, next⟩, obtained, stepped⟩ := bind_eq_ok_iff.mp stepped
      obtain ⟨writer, found, stepped⟩ := bind_eq_ok_iff.mp stepped
      have same := (posixIoHandle_spec lawful obtained).2.2
      refine recorded_of_handle lawful _ obtained rfl rfl ?_
      rw [posixIoWriter_eq found] at stepped
      rw [← Except.ok.inj stepped, same]
      rfl
  | enter mode event =>
      obtain ⟨writer, found, stepped⟩ := bind_eq_ok_iff.mp stepped
      obtain ⟨⟨handle, next⟩, obtained, stepped⟩ := bind_eq_ok_iff.mp stepped
      have same := (posixIoHandle_spec lawful obtained).2.2
      refine recorded_of_handle lawful _ obtained rfl rfl ?_
      rw [posixIoWriter_eq found] at stepped
      rw [← Except.ok.inj stepped, same]
      rfl
  | exit mode header =>
      have last := lastFdOf_touchLastFd header.thread m
      simp only [Stepped, target?, prepare, last]
      simp only [step, handleEvent, handleExit, last] at stepped
      by_cases completed : m.lastFdOf header.thread = -1
      · rw [if_pos completed] at stepped ⊢
        rw [if_pos completed]
        exact (Except.ok.inj stepped).symm
      · rw [if_neg completed] at stepped ⊢
        rw [if_neg completed]
        obtain ⟨writer, found, stepped⟩ := bind_eq_ok_iff.mp stepped
        rw [lastFile_eq, last] at stepped
        obtain ⟨⟨handle, next⟩, obtained, stepped⟩ := bind_eq_ok_iff.mp stepped
        have same := (posixIoHandle_spec lawful obtained).2.2
        refine recorded_of_handle lawful _ obtained rfl rfl ?_
        rw [posixIoWriter_eq found] at stepped
        rw [← Except.ok.inj stepped, same]
        rfl

theorem exists_step {input : PosixInput}
    (emplaced : trace.Emplaced input.thread) (m : PosixMonitor ρ η) : ∃ final, m.step trace input = .ok final := by
  cases input with
  | insertThread thread => exact ⟨_, rfl⟩
  | event event =>
  have writer := posixIoWriter_of_emplaced emplaced
  cases event with
  | openFile header filename =>
      obtain ⟨_, obtained⟩ := exists_posixIoHandle header.threadFd
        emplaced (if 3 ≤ header.fd then filename else header.standardName)
        (m.countOpen header.threadFd)
      exact ⟨_, bind_eq_ok_iff.mpr ⟨_, obtained,
        bind_eq_ok_iff.mpr ⟨_, writer, rfl⟩⟩⟩
  | closeFile header =>
      obtain ⟨_, obtained⟩ := exists_posixIoHandle header.threadFd
        emplaced header.standardName
        (m.touch header.threadFd)
      exact ⟨_, bind_eq_ok_iff.mpr ⟨_, obtained,
        bind_eq_ok_iff.mpr ⟨_, writer, rfl⟩⟩⟩
  | enter mode event =>
      obtain ⟨_, obtained⟩ := exists_posixIoHandle event.header.threadFd
        emplaced event.header.standardName
        ((m.remember event).touch event.header.threadFd)
      exact ⟨_, bind_eq_ok_iff.mpr ⟨_, writer,
        bind_eq_ok_iff.mpr ⟨_, obtained, rfl⟩⟩⟩
  | exit mode header =>
      simp only [step, handleEvent, handleExit]
      by_cases completed :
          (m.touchLastFd header.thread).lastFdOf header.thread = -1
      · exact ⟨_, if_pos completed⟩
      · let file : ThreadFd :=
          ⟨(m.touchLastFd header.thread).lastFdOf header.thread, header.thread⟩
        obtain ⟨_, obtained⟩ := exists_posixIoHandle file
          emplaced header.standardName
          ((m.touchLastFd header.thread).touch file)
        rw [if_neg completed, complete, lastFile_eq]
        exact ⟨_, bind_eq_ok_iff.mpr ⟨_, writer,
          bind_eq_ok_iff.mpr ⟨_, obtained, rfl⟩⟩⟩

@[simp] theorem prepare_written {input : PosixInput} :
    (m.prepare input).written = m.written := by
  fun_cases prepare m input <;> rfl

@[simp] theorem prepare_ioHandles {input : PosixInput} :
    (m.prepare input).ioHandles = m.ioHandles := by
  fun_cases prepare m input <;> rfl

theorem target?_thread {input : PosixInput} {file : ThreadFd}
    {event : η → PosixIoEvent η}
    (target : m.target? trace input = some (file, event)) :
    file.thread = input.thread := by
  unfold target? at target
  split at target
  case h_5 =>
    split_ifs at target
    rw [← (Prod.mk.inj (Option.some.inj target)).1]
    rfl
  case h_1 => cases target
  all_goals
    rw [← (Prod.mk.inj (Option.some.inj target)).1]
    rfl

theorem target?_handle {input : PosixInput} {file : ThreadFd}
    {event : η → PosixIoEvent η}
    (target : m.target? trace input = some (file, event)) (handle : η) :
    (event handle).handle = handle := by
  unfold target? at target
  split at target
  case h_5 =>
    split_ifs at target
    rw [← (Prod.mk.inj (Option.some.inj target)).2]
    rfl
  case h_1 => cases target
  all_goals
    rw [← (Prod.mk.inj (Option.some.inj target)).2]
    rfl

/-- Apart from the registry and the events, a monitor is as prepared, and its
new events are at the thread of the input. -/
theorem Stepped.spec {input : PosixInput}
    (stepped : Stepped trace m input final) :
    final.lastFd = (m.prepare input).lastFd ∧
    final.lastBuf = (m.prepare input).lastBuf ∧
    final.instances = (m.prepare input).instances ∧
    trace.registry.Extends m.ioHandles final.ioHandles ∧
    ∃ added, final.written = m.written ++ added ∧
      ∀ event ∈ added, event.1 = input.thread := by
  unfold Stepped at stepped
  split at stepped
  · subst stepped
    exact ⟨rfl, rfl, rfl, by simpa using .refl, [], by simp, by simp⟩
  · rename_i file event target
    obtain ⟨handle, ioHandles, preCreated, _, extended, rfl⟩ := stepped
    exact ⟨rfl, rfl, rfl, by simpa using extended,
      [(file.thread, event handle)], by simp, by simp [target?_thread target]⟩

end

end PosixMonitor

end Lo2s
