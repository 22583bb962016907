import Lo2s.Foundation.FiniteMap
import Lo2s.Foundation.Run
import Lo2s.Foundation.Stateful
import Lo2s.Types

/-!
# The process controller

`ProcessController` traces the monitored program with `ptrace`.  It reacts to
the wait status of every stop, tells the process monitor of new processes and
threads, and records in `ExecutionScopeGroup` to which process a thread
belongs.

What the operating system answers is a parameter: the result of the `i`-th
request of a run, and the names of processes and threads.
-/

namespace Lo2s

open Foundation Stateful

/-- `ExecutionScopeGroup::groups_`. -/
abbrev ExecutionScopeGroup := FiniteMap ExecutionScope ExecutionScope

namespace ExecutionScopeGroup

/-- `get_process`, process 0 for a thread that is not known. -/
def getProcess (thread : Thread) (groups : ExecutionScopeGroup) :
    Except Failure Process :=
  match groups.lookup (.thread thread) with
  | none => .ok ⟨0⟩
  | some scope => scope.asProcess

def addProcess (process : Process) (groups : ExecutionScopeGroup) :
    ExecutionScopeGroup :=
  groups.insertIfNew (.thread ⟨process.pid⟩) (.process process)

/-- `add_thread` of a thread with a known process. -/
def addThread (thread : Thread) (process : Process)
    (groups : ExecutionScopeGroup) : ExecutionScopeGroup :=
  groups.insertIfNew (.thread thread) (.process process)

def addCpu (cpu : Int64) (groups : ExecutionScopeGroup) : ExecutionScopeGroup :=
  groups.insertIfNew (.cpu cpu) (.cpu cpu)

/-- What the constructor of the trace leaves in the table: the CPUs, and
`Process::no_parent()`. -/
def ofTrace (cpus : List Int64) : ExecutionScopeGroup :=
  (cpus.foldl (fun groups cpu => addCpu cpu groups) ∅).addProcess ⟨0⟩

end ExecutionScopeGroup

/-- A request to `ptrace`. -/
inductive PtraceRequest where
  | setOptions (options : UInt64)
  | getEventMsg
  | cont (signum : Int32)
  | detach (data : Int32)
  deriving DecidableEq, Repr

/-- A request and the thread it is about. -/
structure PtraceCall where
  request : PtraceRequest
  thread : Thread
  deriving DecidableEq, Repr

/-- Whether a request ends the tracing of its thread. -/
def PtraceCall.isDetach (call : PtraceCall) : Bool :=
  match call.request with
  | .detach _ => true
  | _ => false

/-- A call on the `AbstractProcessMonitor`. -/
inductive MonitorCall where
  | insertProcess (parent process : Process) (procName : String) (spawn : Bool)
  | insertThread (process : Process) (thread : Thread) (name : String)
  | updateProcessName (process : Process) (name : String)
  | exitThread (thread : Thread)
  deriving DecidableEq, Repr

/-- What the operating system answers: an `errno` or the message of the event
for the `i`-th request of a run, and the contents of the `comm` files. -/
structure OperatingSystem where
  ptrace : Nat → Except Int32 UInt64
  processComm : Process → String
  taskComm : Process → Thread → String

/-- What leaves a function early: a `std::system_error` with its code, or
another failure. -/
inductive ControllerFailure where
  | systemError (code : Int32)
  | failure (failure : Failure)
  deriving DecidableEq, Repr

/-- `ProcessController`, with the two variables of its signal handler, and the
requests, the calls on the monitor and the signals sent so far. -/
structure ProcessController where
  firstChild : Thread
  running : Bool
  attachedPid : Int32
  groups : ExecutionScopeGroup
  ptraceCalls : List PtraceCall
  monitorCalls : List MonitorCall
  stopsSent : List Int32

inductive SignalHandlingState where
  | keepRunning
  | stop
  deriving DecidableEq, Repr

namespace ProcessController

/-- A computation of the controller. -/
abbrev Handling := Stateful ProcessController ControllerFailure

/-- The constructor. -/
def init (groups : ExecutionScopeGroup) (child : Process) (name : String)
    (spawn : Bool) : ProcessController :=
  { firstChild := ⟨child.pid⟩
    running := true
    attachedPid := if spawn then -1 else child.pid.toInt32
    groups := groups.addProcess child
    ptraceCalls := []
    monitorCalls := [.insertProcess ⟨0⟩ child name spawn]
    stopsSent := [] }

/-- `sig_handler` on `SIGINT`. -/
def sigHandler (c : ProcessController) : ProcessController :=
  if c.attachedPid ≠ -1 then
    { c with
      running := false
      stopsSent := c.stopsSent ++ [c.attachedPid] }
  else c

/-- `ptrace`: the request is made, and answered. -/
def ptrace (os : OperatingSystem) (request : PtraceRequest) (thread : Thread) :
    Handling (Except Int32 UInt64) := do
  let c ← get
  set { c with ptraceCalls := c.ptraceCalls ++ [PtraceCall.mk request thread] }
  return os.ptrace c.ptraceCalls.length

def ptraceCheckedCall (os : OperatingSystem) (request : PtraceRequest)
    (thread : Thread) : Handling UInt64 := do
  match ← ptrace os request thread with
  | .error code => throw (.systemError code)
  | .ok answer => return answer

/-- `PTRACE_O_TRACEFORK | PTRACE_O_TRACEVFORK | PTRACE_O_TRACECLONE |
PTRACE_O_TRACEEXIT | PTRACE_O_TRACEEXEC`. -/
def traceOptions : UInt64 := 0x02 ||| 0x04 ||| 0x08 ||| 0x40 ||| 0x10

def ptraceSetoptions (os : OperatingSystem) (thread : Thread)
    (options : UInt64) : Handling Unit := do
  let _ ← ptraceCheckedCall os (.setOptions options) thread

def ptraceGeteventmsg (os : OperatingSystem) (thread : Thread) :
    Handling UInt64 :=
  ptraceCheckedCall os .getEventMsg thread

def ptraceCont (os : OperatingSystem) (thread : Thread) (signum : Int32) :
    Handling Unit := do
  let _ ← ptraceCheckedCall os (.cont signum) thread

/-- A call on the monitor. -/
def tellMonitor (call : MonitorCall) : Handling Unit :=
  modify fun c => { c with monitorCalls := c.monitorCalls ++ [call] }

/-- A change of the table of threads. -/
def changeGroups (change : ExecutionScopeGroup → ExecutionScopeGroup) :
    Handling Unit :=
  modify fun c => { c with groups := change c.groups }

/-- `groups_.get_process`. -/
def getProcess (thread : Thread) : Handling Process := do
  let c ← get
  match c.groups.getProcess thread with
  | .error failure => throw (.failure failure)
  | .ok process => return process

def ptraceEventFork : Int32 := 1
def ptraceEventVfork : Int32 := 2
def ptraceEventClone : Int32 := 3
def ptraceEventExec : Int32 := 4
def ptraceEventExit : Int32 := 6

def sigTrap : Int32 := 5
def sigStop : Int32 := 19

def esrch : Int32 := 3

def wifstopped (status : Int32) : Bool := status &&& 0xff = 0x7f

def wstopsig (status : Int32) : Int32 := (status &&& 0xff00) >>> 8

def wtermsig (status : Int32) : Int32 := status &&& 0x7f

def wifexited (status : Int32) : Bool := wtermsig status = 0

/-- `WIFSIGNALED`: neither zero nor the mark of a stop. -/
def wifsignaled (status : Int32) : Bool :=
  wtermsig status ≠ 0 ∧ wtermsig status ≠ 0x7f

/-- `handle_ptrace_event`.  The `std::system_error` of a failed request is
logged and thrown again; nothing in it throws `std::out_of_range`. -/
def handlePtraceEvent (os : OperatingSystem) (child : Thread) (event : Int32) :
    Handling Unit := do
  if event = ptraceEventFork ∨ event = ptraceEventVfork then
    let newProcess : Process := ⟨(← ptraceGeteventmsg os child).toInt64⟩
    changeGroups (·.addProcess newProcess)
    let parent ← getProcess child
    tellMonitor (.insertProcess parent newProcess (os.processComm newProcess)
      false)
  else if event = ptraceEventClone then
    let newThread : Thread := ⟨(← ptraceGeteventmsg os child).toInt64⟩
    let process ← getProcess child
    changeGroups (·.addThread newThread process)
    tellMonitor (.insertThread process newThread (os.taskComm process newThread))
  else if event = ptraceEventExec then
    let process : Process := ⟨child.tid⟩
    tellMonitor (.updateProcessName process (os.processComm process))
  else if event = ptraceEventExit then
    tellMonitor (.exitThread child)

/-- The `switch` of `handle_stop_signal`. -/
def handleStop (os : OperatingSystem) (child : Thread) (status : Int32) :
    Handling SignalHandlingState := do
  if wstopsig status = sigStop then
    ptraceSetoptions os child traceOptions
    ptraceCont os child 0
  else if wstopsig status = sigTrap then
    if status >>> 16 ≠ 0 then
      handlePtraceEvent os child (status >>> 16)
    ptraceCont os child 0
  else
    tryCatch (ptraceCont os child (wstopsig status)) fun thrown =>
      if thrown = .systemError esrch then pure () else throw thrown
  return .keepRunning

def handleStopSignal (os : OperatingSystem) (child : Thread) (status : Int32) :
    Handling SignalHandlingState := do
  let c ← get
  if c.attachedPid = 0 && !c.running then
    let _ ← ptrace os (.detach status) child
    if child = c.firstChild then
      return .stop
    else
      ptraceCont os child 0
      handleStop os child status
  else handleStop os child status

def handleSignal (os : OperatingSystem) (child : Thread) (status : Int32) :
    Handling SignalHandlingState := do
  if wifstopped status then
    handleStopSignal os child status
  else if wifexited status || wifsignaled status then
    let c ← get
    return if child = c.firstChild then .stop else .keepRunning
  else
    ptraceCont os child 0
    return .keepRunning

theorem ptraceCheckedCall_apply (os : OperatingSystem) (request : PtraceRequest)
    (thread : Thread) (c : ProcessController) :
    ptraceCheckedCall os request thread c =
      ((os.ptrace c.ptraceCalls.length).mapError ControllerFailure.systemError,
        { c with ptraceCalls := c.ptraceCalls ++ [⟨request, thread⟩] }) := by
  change (match os.ptrace c.ptraceCalls.length with
    | .error code => (throw (ControllerFailure.systemError code) : Handling UInt64)
    | .ok answer => pure answer) _ = _
  cases os.ptrace c.ptraceCalls.length <;> rfl

/-- Requests to `ptrace`, other than to detach, move along a relation. -/
structure RequestRules
    (relation : ProcessController → ProcessController → Prop) : Prop where
  request : ∀ c call, call.isDetach = false →
    relation c { c with ptraceCalls := c.ptraceCalls ++ [call] }

/-- Everything a handler does moves along a relation. -/
structure HandlerRules
    (relation : ProcessController → ProcessController → Prop) : Prop
    extends RequestRules relation where
  call : ∀ c call,
    relation c { c with monitorCalls := c.monitorCalls ++ [call] }
  groups : ∀ c groups, relation c { c with groups := groups }

section

variable {relation : ProcessController → ProcessController → Prop}
  [Std.Refl relation] [IsTrans _ relation]
  (os : OperatingSystem) (thread : Thread)

theorem RequestRules.checkedCall (rules : RequestRules relation)
    {request : PtraceRequest}
    (other : (PtraceCall.mk request thread).isDetach = false) :
    Moves relation (ptraceCheckedCall os request thread) := by
  have made : Moves relation (ptrace os request thread) :=
    fun c => rules.request c _ other
  apply moves_bind made
  intro answer
  cases answer with
  | error code => exact moves_throw _
  | ok answer => exact moves_pure _

theorem RequestRules.cont (rules : RequestRules relation) (signum : Int32) :
    Moves relation (ptraceCont os thread signum) :=
  moves_bind (rules.checkedCall os thread rfl)
    fun _ => moves_pure _

theorem RequestRules.setoptions (rules : RequestRules relation)
    (options : UInt64) :
    Moves relation (ptraceSetoptions os thread options) :=
  moves_bind (rules.checkedCall os thread rfl)
    fun _ => moves_pure _

theorem RequestRules.forward (rules : RequestRules relation) (signum : Int32) :
    Moves relation
      (tryCatch (ptraceCont os thread signum) fun thrown =>
        if thrown = .systemError esrch then pure () else throw thrown) := by
  apply moves_tryCatch (rules.cont os thread signum)
  intro thrown
  split_ifs
  · exact moves_pure _
  · exact moves_throw _

omit [IsTrans _ relation] in
theorem getProcess_moves : Moves relation (getProcess thread) := by
  apply moves_get_bind
  intro c
  cases c.groups.getProcess thread with
  | error failure => exact Std.Refl.refl c
  | ok process => exact Std.Refl.refl c

theorem HandlerRules.handlePtraceEvent (rules : HandlerRules relation)
    (event : Int32) :
    Moves relation (handlePtraceEvent os thread event) := by
  have told : ∀ call, Moves relation (tellMonitor call) :=
    fun call c => rules.call c call
  have changed : ∀ change, Moves relation (changeGroups change) :=
    fun change c => rules.groups c (change c.groups)
  have asked : Moves relation (ProcessController.getProcess thread) :=
    getProcess_moves thread
  unfold ProcessController.handlePtraceEvent
  split_ifs
  · apply moves_bind (rules.checkedCall os thread rfl)
    intro message
    apply moves_bind (changed _)
    intro _
    apply moves_bind asked
    intro parent
    exact told _
  · apply moves_bind (rules.checkedCall os thread rfl)
    intro message
    apply moves_bind asked
    intro process
    apply moves_bind (changed _)
    intro _
    exact told _
  · exact told _
  · exact told _
  · exact moves_pure _

theorem HandlerRules.handleStop (rules : HandlerRules relation)
    (status : Int32) :
    Moves relation (handleStop os thread status) := by
  have done : Moves relation
      (pure .keepRunning : Handling SignalHandlingState) :=
    moves_pure _
  unfold ProcessController.handleStop
  split_ifs
  · apply moves_bind (rules.setoptions os thread _)
    intro _
    exact moves_bind (rules.cont os thread _) fun _ => done
  · apply moves_bind (rules.handlePtraceEvent os thread _)
    intro _
    exact moves_bind (rules.cont os thread _) fun _ => done
  · exact moves_bind (rules.cont os thread _) fun _ => done
  · exact moves_bind (rules.forward os thread _) fun _ => done

end

/-- Where the test that is to detect an attached controller fails, a stop is
handled as ever. -/
theorem handleStopSignal_eq (os : OperatingSystem) (child : Thread)
    (status : Int32) {c : ProcessController} (attached : c.attachedPid ≠ 0) :
    handleStopSignal os child status c = handleStop os child status c := by
  have skipped : (c.attachedPid = 0 && !c.running) = false := by
    simp [attached]
  change (if (c.attachedPid = 0 && !c.running) = true then _
    else handleStop os child status : Handling _) c = _
  rw [skipped]
  rfl

theorem HandlerRules.handleSignal
    {relation : ProcessController → ProcessController → Prop}
    [Std.Refl relation] [IsTrans _ relation] (rules : HandlerRules relation)
    (os : OperatingSystem) (child : Thread) (status : Int32)
    {c : ProcessController} (attached : c.attachedPid ≠ 0) :
    relation c (handleSignal os child status c).2 := by
  unfold ProcessController.handleSignal
  split_ifs
  · rw [handleStopSignal_eq os child status attached]
    exact rules.handleStop os child status c
  · exact Std.Refl.refl c
  · exact moves_bind (rules.cont os child 0)
      (fun _ => moves_pure _) c

end ProcessController

/-- What happens to the controller while it runs: `SIGINT`, or the return of
`waitpid`. -/
inductive ControllerInput where
  | sigint
  | wakeup (child : Thread) (status : Int32)
  deriving DecidableEq, Repr

/-- How `run` ends: it returns, or an exception leaves it. -/
inductive ControllerEnd where
  | returned
  | escaped (thrown : ControllerFailure)
  deriving DecidableEq, Repr

/-- A controller that executes `run`. -/
structure ControllerRun where
  controller : ProcessController
  ended : Option ControllerEnd

namespace ControllerRun

/-- The start of `run`. -/
def start (controller : ProcessController) : ControllerRun := ⟨controller, none⟩

/-- What `run` does with the result of `handle_signal`. -/
def ofResult :
    Except ControllerFailure SignalHandlingState × ProcessController →
      ControllerRun
  | (.ok .keepRunning, c) => ⟨c, none⟩
  | (.ok .stop, c) => ⟨c, some .returned⟩
  | (.error thrown, c) => ⟨c, some (.escaped thrown)⟩

@[simp] theorem ofResult_controller
    (result : Except ControllerFailure SignalHandlingState × ProcessController) :
    (ofResult result).controller = result.2 := by
  rcases result with ⟨_ | _ | _, _⟩ <;> rfl

/-- One round of the loop of `run`, or the signal handler; nothing happens any
more when `run` has ended. -/
def handle (os : OperatingSystem) (r : ControllerRun) (input : ControllerInput) :
    ControllerRun :=
  match r.ended with
  | some _ => r
  | none =>
      match input with
      | .sigint => { r with controller := r.controller.sigHandler }
      | .wakeup child status =>
          ofResult (ProcessController.handleSignal os child status r.controller)

/-- The controller after some inputs. -/
def after (os : OperatingSystem) (r : ControllerRun)
    (inputs : List ControllerInput) : ControllerRun :=
  inputs.foldl (handle os) r

theorem after_append (os : OperatingSystem) (r : ControllerRun)
    (first second : List ControllerInput) :
    r.after os (first ++ second) = (r.after os first).after os second :=
  List.foldl_append

theorem after_of_ended (os : OperatingSystem) {r : ControllerRun}
    (ended : r.ended ≠ none) (inputs : List ControllerInput) :
    r.after os inputs = r := by
  induction inputs with
  | nil => rfl
  | cons input inputs induction =>
      have same : r.handle os input = r := by
        unfold handle
        cases known : r.ended with
        | none => exact absurd known ended
        | some _ => rfl
      rw [after, List.foldl_cons, same]
      exact induction

end ControllerRun

end Lo2s
