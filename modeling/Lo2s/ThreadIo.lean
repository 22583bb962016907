import Lo2s.PosixBpf
import Lo2s.PosixHandles

/-!
# What the trace tells about the I/O of a thread

`ThreadIo` is a machine that watches one thread alone and records what it does,
without a delay.  The monitor makes of each thread what its own inputs tell
about the thread, whatever the inputs of the other threads are.
-/

namespace Lo2s

open Foundation

/-- What a thread did, as the kernel saw it. -/
inductive IoRecord where
  | opened (time : UInt64) (fd : Int32) (name : String)
  | closed (time : UInt64) (fd : Int32)
  | began (time : UInt64) (fd : Int32) (mode : IoOperationMode)
      (bytes buffer : UInt64)
  | ended (time : UInt64) (fd : Int32) (bytes buffer : UInt64)
  deriving DecidableEq, Repr

/-- A read or a write that has not ended. -/
structure IoOperation where
  fd : Int32
  bytes : UInt64
  buffer : UInt64
  deriving DecidableEq, Repr

/-- What has been recorded of a thread. -/
structure IoLog where
  operation : Option IoOperation
  records : List IoRecord
  deriving DecidableEq, Repr

namespace IoLog

def opens (time : UInt64) (fd : Int32) (name : String) (log : IoLog) : IoLog :=
  { log with records := log.records ++ [.opened time fd name] }

def closes (time : UInt64) (fd : Int32) (log : IoLog) : IoLog :=
  { log with records := log.records ++ [.closed time fd] }

/-- An operation begins.  On the file descriptor -1 it never ends. -/
def enters (time : UInt64) (mode : IoOperationMode) (operation : IoOperation)
    (log : IoLog) : IoLog where
  operation := if operation.fd = -1 then none else some operation
  records := log.records ++
    [.began time operation.fd mode operation.bytes operation.buffer]

def exits (time : UInt64) (log : IoLog) : IoLog :=
  match log.operation with
  | none => log
  | some operation =>
      { operation := none
        records := log.records ++
          [.ended time operation.fd operation.bytes operation.buffer] }

end IoLog

/-- A thread: whether it is recorded, the name of the file it opens, and what
has been recorded. -/
structure ThreadIo where
  recorded : Bool
  name : Option String
  log : IoLog
  deriving DecidableEq, Repr

namespace ThreadIo

def init : ThreadIo := ⟨false, none, ⟨none, []⟩⟩

/-- Something is recorded, if there is room for it. -/
def note (call : BpfCall) (change : IoLog → IoLog) (t : ThreadIo) : ThreadIo :=
  if call.room then { t with log := change t.log } else t

/-- The thread, while it is recorded, reaches a probe. -/
def probe (call : BpfCall) (t : ThreadIo) : PosixProbe → ThreadIo
  | .doFilpOpen name => { t with name := some (readKernelStr name) }
  | .sysExitOpenat ret =>
      match t.name with
      | none => t
      | some name =>
          if ret < 0 then t
          else t.note call (.opens call.time ret.toInt32 name)
  | .sysEnterClose fd => t.note call (.closes call.time fd.toUInt32.toInt32)
  | .sysEnterRw mode fd buf count =>
      t.note call (.enters call.time mode ⟨fd.toUInt32.toInt32, count, buf⟩)
  | .sysExitRw _ => t.note call (.exits call.time)

/-- What a step is for the thread with this number. -/
def step (pid : UInt32) (t : ThreadIo) : PosixStep → ThreadIo
  | .insertThread thread =>
      if thread.pid = pid then { t with recorded := true } else t
  | .resetLastFd thread =>
      if thread.pid = pid then { t with log := { t.log with operation := none } }
      else t
  | .exitThread thread =>
      if thread.pid = pid then { t with recorded := false } else t
  | .probe call probe =>
      if call.pid = pid ∧ t.recorded then t.probe call probe else t
  | .evictPid other => if other = pid then { t with recorded := false } else t
  | .evictOpen other => if other = pid then { t with name := none } else t
  | .poll => t

def after (pid : UInt32) (steps : List PosixStep) : ThreadIo :=
  steps.foldl (step pid) init

theorem after_concat (pid : UInt32) (steps : List PosixStep)
    (input : PosixStep) :
    after pid (steps ++ [input]) = (after pid steps).step pid input := by
  rw [after, List.foldl_concat, after]

end ThreadIo

/-- What the monitor makes of an event of the thread. -/
def IoLog.note (log : IoLog) : PosixEvent → IoLog
  | .openFile header filename => log.opens header.time header.fd filename
  | .closeFile header => log.closes header.time header.fd
  | .enter mode event =>
      log.enters event.header.time mode
        ⟨event.header.fd, event.count.toUInt64, event.buf.toUInt64⟩
  | .exit _ header => log.exits header.time

/-- The thread with a number. -/
def threadOf (pid : UInt32) : Thread := .ofPid pid.toInt32

theorem pid_threadOf (pid : UInt32) : (threadOf pid).pid = pid := by
  simp [threadOf, Thread.pid, Thread.ofPid]

theorem threadOf_inj {pid other : UInt32} :
    threadOf pid = threadOf other ↔ pid = other := by
  constructor
  · intro same
    rw [← pid_threadOf pid, same, pid_threadOf]
  · exact congrArg threadOf

namespace PosixTrace

variable {ρ η : Type}

/-- A handle that has been made for a file, under a key that was free. -/
def MadeFor (trace : PosixTrace ρ η) (id : ThreadFdInstance) (name : String)
    (handle : η) : Prop :=
  ∃ ioHandles process, trace.registry.find ioHandles id = none ∧
    (trace.registry.emplace ioHandles id ⟨name, process⟩).1 = handle

/-- The name of an open file in the trace. -/
def nameOf (fd : Int32) (name : String) : String :=
  if 3 ≤ fd then name
  else if fd = 0 then "stdin"
  else if fd = 1 then "stdout"
  else if fd = 2 then "stderr"
  else ""

/-- An event tells what the thread did. -/
inductive Tells (trace : PosixTrace ρ η) (ioHandles : ρ) (thread : Thread) :
    PosixIoEvent η → IoRecord → Prop where
  | opened {handle : η} {number : Int32} (time : UInt64) (fd : Int32)
      (name : String) :
      trace.registry.find ioHandles ⟨thread, fd, number⟩ = some handle →
      trace.MadeFor ⟨thread, fd, number⟩ (nameOf fd name) handle →
      Tells trace ioHandles thread
        (.ioCreateHandle (trace.timeConverter.convert time) handle)
        (.opened time fd name)
  | closed {handle : η} {number : Int32} (time : UInt64) (fd : Int32) :
      trace.registry.find ioHandles ⟨thread, fd, number⟩ = some handle →
      Tells trace ioHandles thread
        (.ioDestroyHandle (trace.timeConverter.convert time) handle)
        (.closed time fd)
  | began {handle : η} {number : Int32} (time : UInt64) (fd : Int32)
      (mode : IoOperationMode) (bytes buffer : UInt64) :
      trace.registry.find ioHandles ⟨thread, fd, number⟩ = some handle →
      Tells trace ioHandles thread
        (.ioOperationBegin (trace.timeConverter.convert time) handle mode bytes
          buffer)
        (.began time fd mode bytes buffer)
  | ended {handle : η} {number : Int32} (time : UInt64) (fd : Int32)
      (bytes buffer : UInt64) :
      trace.registry.find ioHandles ⟨thread, fd, number⟩ = some handle →
      Tells trace ioHandles thread
        (.ioOperationComplete (trace.timeConverter.convert time) handle bytes
          buffer)
        (.ended time fd bytes buffer)

theorem Tells.mono {trace : PosixTrace ρ η} {ioHandles later : ρ}
    {thread : Thread} {event : PosixIoEvent η} {record : IoRecord}
    (told : Tells trace ioHandles thread event record)
    (extended : trace.registry.Extends ioHandles later) :
    Tells trace later thread event record := by
  cases told with
  | opened time fd name found made =>
      exact .opened time fd name (extended _ _ found) made
  | closed time fd found => exact .closed time fd (extended _ _ found)
  | began time fd mode bytes buffer found =>
      exact .began time fd mode bytes buffer (extended _ _ found)
  | ended time fd bytes buffer found =>
      exact .ended time fd bytes buffer (extended _ _ found)

end PosixTrace

/-- What an input is for a thread. -/
def IoLog.input (thread : Thread) (log : IoLog) : PosixInput → IoLog
  | .insertThread inserted =>
      if inserted = thread then { log with operation := none } else log
  | .event event => if event.thread = thread then log.note event else log

/-- What inputs say about a thread. -/
def PosixInput.log (thread : Thread) (inputs : List PosixInput) : IoLog :=
  inputs.foldl (IoLog.input thread) ⟨none, []⟩

theorem PosixInput.log_concat (thread : Thread) (inputs : List PosixInput)
    (input : PosixInput) :
    log thread (inputs ++ [input]) = (log thread inputs).input thread input := by
  rw [log, List.foldl_concat, log]

theorem IoLog.input_of_ne {thread : Thread} {input : PosixInput}
    (other : input.thread ≠ thread) (log : IoLog) :
    log.input thread input = log := by
  cases input with
  | insertThread inserted => exact if_neg other
  | event event => exact if_neg other

theorem IoLog.foldl_input_of_ne {thread : Thread} {events : List PosixEvent}
    (apart : ∀ event ∈ events, event.thread ≠ thread) (log : IoLog) :
    events.foldl (fun log event => log.input thread (.event event)) log =
      log := by
  induction events with
  | nil => rfl
  | cons event events induction =>
      obtain ⟨other, rest⟩ := List.forall_mem_cons.mp apart
      rw [List.foldl_cons, show log.input thread (.event event) = log from
        if_neg other]
      exact induction rest

theorem PosixInput.log_append_events (thread : Thread)
    (inputs : List PosixInput) (events : List PosixEvent) :
    log thread (inputs ++ events.map .event) =
      events.foldl (fun log event => log.input thread (.event event))
        (log thread inputs) := by
  rw [log, List.foldl_append, List.foldl_map, log]

namespace PosixMonitor

variable {ρ η : Type} {trace : PosixTrace ρ η} {m final next : PosixMonitor ρ η}
  {thread : Thread} {input : PosixInput} {log : IoLog}

/-- The events of the location of a thread. -/
def eventsOf (thread : Thread) (m : PosixMonitor ρ η) :
    List (PosixIoEvent η) :=
  (m.written.filter fun event => event.1 = thread).map Prod.snd

/-- What the monitor keeps about the operation of a thread. -/
def Keeps (m : PosixMonitor ρ η) (thread : Thread) :
    Option IoOperation → Prop
  | none => ∀ fd, m.lastFd.lookup thread = some fd → fd = -1
  | some operation =>
      operation.fd ≠ -1 ∧ m.lastFd.lookup thread = some operation.fd ∧
        m.lastCount.lookup thread = some operation.bytes ∧
        m.lastBuf.lookup thread = some operation.buffer

/-- The monitor has made of a thread what the log has. -/
structure Shows (trace : PosixTrace ρ η) (m : PosixMonitor ρ η)
    (thread : Thread) (log : IoLog) : Prop where
  told : List.Forall₂ (trace.Tells m.ioHandles thread) (m.eventsOf thread)
    log.records
  keeps : m.Keeps thread log.operation

theorem posixIoHandle_made (lawful : trace.registry.Lawful)
    {id : ThreadFdInstance} {name : String} {handle : η}
    (obtained : m.posixIoHandle trace id name = .ok (handle, next)) :
    (∀ key other, trace.registry.find next.ioHandles key = some other →
      trace.registry.find m.ioHandles key = some other ∨ key = id) ∧
    (trace.registry.find m.ioHandles id = none →
      trace.MadeFor id name handle) := by
  unfold posixIoHandle at obtained
  split at obtained
  · next found =>
      obtain ⟨rfl, rfl⟩ := Prod.mk.inj (Except.ok.inj obtained)
      refine ⟨fun key other there => .inl there, fun free => ?_⟩
      rw [free] at found
      cases found
  · next absent =>
      split at obtained
      · cases obtained
      · next process _ =>
          by_cases comm : trace.has (.comm process)
          · rw [if_pos comm] at obtained
            obtain ⟨rfl, rfl⟩ := Prod.mk.inj (Except.ok.inj obtained)
            refine ⟨fun key other there => ?_,
              fun free => ⟨m.ioHandles, process, free, rfl⟩⟩
            rw [lawful.find_emplace key _ absent] at there
            split_ifs at there with same
            · exact .inr same
            · exact .inl there
          · rw [if_neg comm] at obtained
            cases obtained

/-- Every handle is found under a number that its file has had. -/
def Numbered (trace : PosixTrace ρ η) (m : PosixMonitor ρ η) : Prop :=
  ∀ (file : ThreadFd) (number : Int32) (handle : η),
    trace.registry.find m.ioHandles (file.numbered number) = some handle →
      ∃ current, m.instances.lookup file = some current ∧
        number.toInt ≤ current.toInt

/-- The handles after an input are the ones before it and one more, which the
file of the input has now. -/
theorem found_of_step (lawful : trace.registry.Lawful)
    (stepped : m.step trace input = .ok final) {key : ThreadFdInstance}
    {handle : η} (found : trace.registry.find final.ioHandles key = some handle) :
    trace.registry.find m.ioHandles key = some handle ∨
      ∃ file ∈ (m.prepare input).instances,
        key = (m.prepare input).fileInstance file := by
  -- The one lookup is of a file that has been touched.
  have looked : ∀ (touched : PosixMonitor ρ η) {next : PosixMonitor ρ η}
      {file : ThreadFd} {name : String} {other : η},
      touched.ioHandles = m.ioHandles →
      touched.instances = (m.prepare input).instances →
      file ∈ touched.instances → final.ioHandles = next.ioHandles →
      touched.posixIoHandle trace (touched.fileInstance file) name =
        .ok (other, next) →
      trace.registry.find m.ioHandles key = some handle ∨
        ∃ file ∈ (m.prepare input).instances,
          key = (m.prepare input).fileInstance file := by
    intro touched next file name other sameHandles sameInstances known same
      obtained
    rw [same] at found
    rcases (posixIoHandle_made lawful obtained).1 key handle found with
      old | here
    · exact .inl (sameHandles ▸ old)
    · refine .inr ⟨file, sameInstances ▸ known, ?_⟩
      rw [here, fileInstance, fileInstance, instanceOf, instanceOf,
        sameInstances]
  cases input with
  | insertThread inserted =>
      rw [← Except.ok.inj stepped] at found
      exact .inl found
  | event event =>
  cases event with
  | openFile header filename =>
      obtain ⟨⟨handle, next⟩, obtained, stepped⟩ := bind_eq_ok_iff.mp stepped
      obtain ⟨writer, _, stepped⟩ := bind_eq_ok_iff.mp stepped
      refine looked (m.countOpen header.threadFd) rfl rfl
        ((AList.mem_insert _).mpr (.inl rfl)) ?_ obtained
      rw [← Except.ok.inj stepped]
      rfl
  | closeFile header =>
      obtain ⟨⟨handle, next⟩, obtained, stepped⟩ := bind_eq_ok_iff.mp stepped
      obtain ⟨writer, _, stepped⟩ := bind_eq_ok_iff.mp stepped
      refine looked (m.touch header.threadFd) rfl rfl mem_touch ?_ obtained
      rw [← Except.ok.inj stepped]
      rfl
  | enter mode event =>
      obtain ⟨writer, _, stepped⟩ := bind_eq_ok_iff.mp stepped
      obtain ⟨⟨handle, next⟩, obtained, stepped⟩ := bind_eq_ok_iff.mp stepped
      refine looked ((m.remember event).touch event.header.threadFd) rfl rfl
        mem_touch ?_ obtained
      rw [← Except.ok.inj stepped]
      rfl
  | exit mode header =>
      have last := lastFdOf_touchLastFd header.thread m
      simp only [PosixMonitor.step, handleEvent, handleExit, last] at stepped
      by_cases completed : m.lastFdOf header.thread = -1
      · rw [if_pos completed] at stepped
        rw [← Except.ok.inj stepped] at found
        exact .inl found
      · rw [if_neg completed] at stepped
        obtain ⟨writer, _, stepped⟩ := bind_eq_ok_iff.mp stepped
        rw [lastFile_eq, last] at stepped
        obtain ⟨⟨handle, next⟩, obtained, stepped⟩ := bind_eq_ok_iff.mp stepped
        refine looked ((m.touchLastFd header.thread).touch
          ⟨m.lastFdOf header.thread, header.thread⟩) rfl ?_ mem_touch ?_ obtained
        · simp only [prepare, last]
          rw [if_neg completed]
        · rw [← Except.ok.inj stepped]
          rfl

theorem numbered_of_run {ioHandles : ρ} {inputs : List PosixInput}
    (lawful : trace.registry.Lawful)
    (empty : ∀ key, trace.registry.find ioHandles key = none)
    (few : ∀ file, PosixInput.openCount file inputs < 2 ^ 31)
    (reached : run (step trace) (init ioHandles) inputs = .ok m) :
    Numbered trace m := by
  induction inputs using List.reverseRecOn generalizing m with
  | nil =>
      intro file number handle found
      rw [← Except.ok.inj reached, init, empty] at found
      cases found
  | append_singleton earlier input induction =>
      obtain ⟨before, reachedBefore, succeeded⟩ :=
        run_concat_eq_ok_iff.mp reached
      have fewBefore : ∀ file, PosixInput.openCount file earlier < 2 ^ 31 := by
        intro file
        have whole := few file
        rw [PosixInput.openCount_concat] at whole
        omega
      have counted := (registered_of_run lawful fewBefore reachedBefore).1
      obtain ⟨_, _, instances, _⟩ := (step_spec lawful succeeded).spec
      intro file number handle found
      rcases found_of_step lawful succeeded found with
        old | ⟨other, known, same⟩
      · obtain ⟨current, there, below⟩ :=
          induction fewBefore reachedBefore file number handle old
        obtain ⟨later, now, grown⟩ := lookup_prepare_mono counted few there
        exact ⟨later, instances ▸ now, below.trans grown⟩
      · have numbers : file.numbered number =
            other.numbered ((before.prepare input).instanceOf other) := same
        obtain ⟨rfl, rfl⟩ := ThreadFd.numbered_inj numbers
        exact ⟨_, instances ▸ lookup_of_mem known, le_rfl⟩

theorem Numbered.free_of_opens {file : ThreadFd} {earlier : List PosixInput}
    (numbered : Numbered trace m) (counted : Counted earlier m)
    (few : PosixInput.openCount file earlier + 1 < 2 ^ 31) :
    trace.registry.find m.ioHandles ((m.countOpen file).fileInstance file) =
      none := by
  cases taken : trace.registry.find m.ioHandles
      ((m.countOpen file).fileInstance file) with
  | none => rfl
  | some handle =>
      exfalso
      obtain ⟨current, known, below⟩ := numbered file _ handle taken
      have bound := counted file current known
      rw [instanceOf, countOpen, AList.lookup_insert,
        if_pos (FiniteMap.mem_iff_lookup.mpr ⟨_, known⟩), instanceOf, known,
        Option.getD_some, Option.getD_some, toInt_add_one (by omega)] at below
      omega

theorem handleOpen_spec {header : PosixEventHeader} {filename : String}
    (lawful : trace.registry.Lawful)
    (free : trace.registry.find m.ioHandles
      ((m.countOpen header.threadFd).fileInstance header.threadFd) = none)
    (stepped : m.step trace (.event (.openFile header filename)) = .ok final) :
    ∃ handle, final.written = m.written ++ [(header.thread,
        .ioCreateHandle (trace.timeConverter.convert header.time) handle)] ∧
      trace.registry.find final.ioHandles
        ((m.countOpen header.threadFd).fileInstance header.threadFd) =
          some handle ∧
      trace.MadeFor
        ((m.countOpen header.threadFd).fileInstance header.threadFd)
        (PosixTrace.nameOf header.fd filename) handle := by
  obtain ⟨handle, ioHandles, preCreated, found, _, same⟩ :=
    step_spec lawful stepped
  obtain ⟨⟨other, next⟩, obtained, stepped⟩ := bind_eq_ok_iff.mp stepped
  obtain ⟨writer, _, stepped⟩ := bind_eq_ok_iff.mp stepped
  have made := (posixIoHandle_made lawful obtained).2 free
  have sameWritten := congrArg PosixMonitor.written
    ((Except.ok.inj stepped).trans same)
  obtain ⟨_, last⟩ := List.append_inj' sameWritten rfl
  simp only [List.cons.injEq, Prod.mk.injEq,
    PosixIoEvent.ioCreateHandle.injEq] at last
  obtain ⟨⟨_, _, rfl⟩, _⟩ := last
  subst same
  exact ⟨other, rfl, found, made⟩

theorem eventsOf_concat {event : PosixIoEvent η}
    (written : final.written = m.written ++ [(thread, event)]) :
    final.eventsOf thread = m.eventsOf thread ++ [event] := by
  simp [eventsOf, written]

theorem eventsOf_of_ne {added : List (Thread × PosixIoEvent η)}
    (written : final.written = m.written ++ added)
    (apart : ∀ event ∈ added, event.1 ≠ thread) :
    final.eventsOf thread = m.eventsOf thread := by
  have none : added.filter (fun event => event.1 = thread) = [] := by
    apply List.filter_eq_nil_iff.mpr
    intro event inside
    simp [apart event inside]
  rw [eventsOf, written, List.filter_append, none, List.append_nil, eventsOf]

theorem Shows.concat (shows : Shows trace m thread log)
    (extended : trace.registry.Extends m.ioHandles final.ioHandles)
    {event : PosixIoEvent η} {record : IoRecord}
    (written : final.written = m.written ++ [(thread, event)])
    (tells : trace.Tells final.ioHandles thread event record) :
    List.Forall₂ (trace.Tells final.ioHandles thread) (final.eventsOf thread)
      (log.records ++ [record]) := by
  rw [eventsOf_concat written]
  apply List.rel_append
  · exact shows.told.imp fun _ _ told => told.mono extended
  · exact .cons tells .nil

theorem Shows.event {event : PosixEvent} (lawful : trace.registry.Lawful)
    (shows : Shows trace m event.thread log)
    (known : event.thread ∈ m.lastFd)
    (free : ∀ header filename, event = .openFile header filename →
      trace.registry.find m.ioHandles
        ((m.countOpen header.threadFd).fileInstance header.threadFd) = none)
    (succeeded : m.step trace (.event event) = .ok final) :
    Shows trace final event.thread (log.note event) := by
  have stepped := step_spec lawful succeeded
  obtain ⟨_, _, _, extended, _⟩ := stepped.spec
  cases event with
  | openFile header filename =>
      obtain ⟨handle, written, found, made⟩ :=
        handleOpen_spec lawful (free header filename rfl) succeeded
      obtain ⟨_, _, _, _, _, rfl⟩ := stepped
      exact ⟨shows.concat extended written
        (.opened header.time header.fd filename found made), shows.keeps⟩
  | closeFile header =>
      obtain ⟨handle, _, _, found, _, rfl⟩ := stepped
      exact ⟨shows.concat extended rfl (.closed header.time header.fd found),
        shows.keeps⟩
  | enter mode event =>
      obtain ⟨handle, _, _, found, _, rfl⟩ := stepped
      refine ⟨shows.concat extended rfl (.began event.header.time
        event.header.fd mode event.count.toUInt64 event.buf.toUInt64 found), ?_⟩
      simp only [IoLog.note, IoLog.enters]
      split_ifs with invalid
      · intro fd there
        have last : some event.header.fd = some fd :=
          (AList.lookup_insert _).symm.trans there
        exact (Option.some.inj last).symm.trans invalid
      · exact ⟨invalid, AList.lookup_insert _, AList.lookup_insert _,
          AList.lookup_insert _⟩
  | exit mode header =>
      simp only [IoLog.note, IoLog.exits]
      have keeps := shows.keeps
      unfold Stepped at stepped
      simp only [target?, prepare, lastFdOf_touchLastFd] at stepped
      obtain ⟨fd, lastFd : m.lastFd.lookup header.thread = some fd⟩ :=
        FiniteMap.mem_iff_lookup.mp known
      have last : m.lastFdOf header.thread = fd :=
        congrArg (Option.getD · 0) lastFd
      cases current : log.operation with
      | none =>
          rw [current] at keeps
          have idle := keeps fd lastFd
          rw [last, if_pos idle, if_pos idle] at stepped
          subst stepped
          refine ⟨shows.told, ?_⟩
          rw [current]
          intro other there
          rw [touchLastFd, FiniteMap.insertIfNew_of_lookup lastFd] at there
          exact keeps other there
      | some operation =>
          rw [current] at keeps
          obtain ⟨valid, kept, bytes, buffer⟩ := keeps
          have bytes : m.lastCount.lookup header.thread =
            some operation.bytes := bytes
          have buffer : m.lastBuf.lookup header.thread =
            some operation.buffer := buffer
          cases lastFd.symm.trans kept
          rw [last, if_neg valid, if_neg valid] at stepped
          obtain ⟨handle, ioHandles, preCreated, found, _, rfl⟩ := stepped
          refine ⟨shows.concat extended rfl ?_, ?_⟩
          · rw [bytes, buffer]
            exact .ended header.time _ _ _ found
          · intro other there
            exact (Option.some.inj ((AList.lookup_insert _).symm.trans there)).symm

theorem keeps_prepare_of_ne (other : input.thread ≠ thread)
    (operation : Option IoOperation) :
    (m.prepare input).Keeps thread operation ↔ m.Keeps thread operation := by
  have apart : thread ≠ input.thread := Ne.symm other
  have same : (m.prepare input).lastFd.lookup thread =
        m.lastFd.lookup thread ∧
      (m.prepare input).lastCount.lookup thread =
        m.lastCount.lookup thread ∧
      (m.prepare input).lastBuf.lookup thread = m.lastBuf.lookup thread := by
    cases input with
    | insertThread inserted =>
        exact ⟨AList.lookup_insert_ne apart, rfl, rfl⟩
    | event event =>
    cases event with
    | openFile header filename => exact ⟨rfl, rfl, rfl⟩
    | closeFile header => exact ⟨rfl, rfl, rfl⟩
    | enter mode event =>
        exact ⟨AList.lookup_insert_ne apart, AList.lookup_insert_ne apart,
          AList.lookup_insert_ne apart⟩
    | exit mode header =>
        have apart : thread ≠ header.thread := apart
        simp only [prepare]
        split_ifs
        · simp [touchLastFd, FiniteMap.lookup_insertIfNew, apart]
        · simp [touchLastFd, FiniteMap.lookup_insertIfNew, apart]
  obtain ⟨lastFd, lastCount, lastBuf⟩ := same
  cases operation with
  | none => simp only [Keeps, lastFd]
  | some operation => simp only [Keeps, lastFd, lastCount, lastBuf]

theorem keeps_of_stepped (stepped : Stepped trace m input final)
    (operation : Option IoOperation) :
    final.Keeps thread operation ↔ (m.prepare input).Keeps thread operation := by
  unfold Stepped at stepped
  split at stepped
  · rw [stepped]
  · obtain ⟨_, _, _, _, _, rfl⟩ := stepped
    cases operation with
    | none => exact .rfl
    | some operation => exact .rfl

theorem Shows.of_ne (shows : Shows trace m thread log)
    (other : input.thread ≠ thread)
    (stepped : Stepped trace m input final) : Shows trace final thread log := by
  obtain ⟨_, _, _, extended, added, written, apart⟩ := stepped.spec
  constructor
  · rw [eventsOf_of_ne written]
    · exact shows.told.imp fun _ _ told => told.mono extended
    · intro event inside
      rw [apart event inside]
      exact other
  · rw [keeps_of_stepped stepped, keeps_prepare_of_ne other]
    exact shows.keeps

theorem Shows.insertThread (shows : Shows trace m thread log) :
    Shows trace (m.insertThread thread) thread { log with operation := none } :=
  ⟨shows.told, fun _ there =>
    (Option.some.inj ((AList.lookup_insert _).symm.trans there)).symm⟩

theorem mem_lastFd_of_step (lawful : trace.registry.Lawful)
    (succeeded : m.step trace input = .ok final)
    (known : input = .insertThread thread ∨ thread ∈ m.lastFd) :
    thread ∈ final.lastFd := by
  rw [(step_spec lawful succeeded).spec.1]
  cases input with
  | insertThread inserted =>
      rcases known with same | known
      · cases same
        exact (AList.mem_insert _).mpr (.inl rfl)
      · exact (AList.mem_insert _).mpr (.inr known)
  | event event =>
  replace known : thread ∈ m.lastFd := known.resolve_left (by simp)
  cases event with
  | openFile header filename => exact known
  | closeFile header => exact known
  | enter mode event => exact (AList.mem_insert _).mpr (.inr known)
  | exit mode header =>
      have touched : thread ∈ (m.touchLastFd header.thread).lastFd :=
        FiniteMap.mem_insertIfNew.mpr (.inr known)
      simp only [prepare]
      split_ifs
      · exact touched
      · exact (AList.mem_insert _).mpr (.inr touched)

theorem mem_lastFd_prepare (known : thread ∈ (m.prepare input).lastFd) :
    thread = input.thread ∨ thread ∈ m.lastFd := by
  cases input with
  | insertThread inserted => exact (AList.mem_insert _).mp known
  | event event =>
  cases event with
  | openFile header filename => exact .inr known
  | closeFile header => exact .inr known
  | enter mode event => exact (AList.mem_insert _).mp known
  | exit mode header =>
      have touched : thread ∈ (m.touchLastFd header.thread).lastFd →
          thread = header.thread ∨ thread ∈ m.lastFd :=
        FiniteMap.mem_insertIfNew.mp
      simp only [prepare] at known
      split_ifs at known
      · exact touched known
      · rcases (AList.mem_insert _).mp known with own | before
        · exact .inl own
        · exact touched before

theorem mem_lastFd_of_run {ioHandles : ρ} {inputs : List PosixInput}
    (lawful : trace.registry.Lawful)
    (reached : run (step trace) (init ioHandles) inputs = .ok m)
    (inserted : .insertThread thread ∈ inputs) : thread ∈ m.lastFd := by
  refine invariant_of_run (fun earlier m =>
    .insertThread thread ∈ earlier → thread ∈ m.lastFd) ?_ ?_ reached inserted
  · intro inside
    cases inside
  · intro earlier m input final holds succeeded inside
    apply mem_lastFd_of_step lawful succeeded
    rcases List.mem_append.mp inside with before | here
    · exact .inr (holds before)
    · exact .inl (List.mem_singleton.mp here).symm

/-- The monitor makes of each thread what the inputs say about it. -/
theorem shows_of_run {ioHandles : ρ} {inputs : List PosixInput}
    (lawful : trace.registry.Lawful)
    (empty : ∀ key, trace.registry.find ioHandles key = none)
    (inserted : Throughout (fun earlier input => ∀ event,
      input = .event event → .insertThread event.thread ∈ earlier) inputs)
    (few : ∀ file, PosixInput.openCount file inputs < 2 ^ 31)
    (reached : run (step trace) (init ioHandles) inputs = .ok m)
    (thread : Thread) :
    Shows trace m thread (PosixInput.log thread inputs) := by
  induction inputs using List.reverseRecOn generalizing m with
  | nil =>
      rw [← Except.ok.inj reached]
      refine ⟨.nil, ?_⟩
      intro fd there
      cases there
  | append_singleton earlier input induction =>
      obtain ⟨before, reachedBefore, succeeded⟩ :=
        run_concat_eq_ok_iff.mp reached
      obtain ⟨insertedBefore, last⟩ := Throughout.concat_iff.mp inserted
      have fewBefore : ∀ file, PosixInput.openCount file earlier < 2 ^ 31 := by
        intro file
        have whole := few file
        rw [PosixInput.openCount_concat] at whole
        omega
      have shows := induction insertedBefore fewBefore reachedBefore
      rw [PosixInput.log_concat]
      by_cases about : input.thread = thread
      · subst about
        cases input with
        | insertThread inserted =>
            rw [← Except.ok.inj succeeded]
            simp only [IoLog.input, PosixInput.thread, if_true]
            exact shows.insertThread
        | event event =>
            simp only [IoLog.input, PosixInput.thread, if_true]
            apply shows.event lawful
              (mem_lastFd_of_run lawful reachedBefore (last event rfl)) ?_
              succeeded
            rintro header filename rfl
            apply (numbered_of_run lawful empty fewBefore
              reachedBefore).free_of_opens
              (registered_of_run lawful fewBefore reachedBefore).1
            have opens : (PosixInput.event (.openFile header filename)).opens? =
              some header.threadFd := rfl
            have whole := few header.threadFd
            rw [PosixInput.openCount_concat, if_pos opens] at whole
            exact whole
      · rw [IoLog.input_of_ne about]
        exact shows.of_ne about (step_spec lawful succeeded)

end PosixMonitor

end Lo2s
