import Lo2s.AttachInterrupt

/-!
# To which process a thread belongs

The controller adds an entry to `ExecutionScopeGroup` for every process and
thread it is told of, unless there is one already, and never removes any.  Next
to a run stands what the kernel knows: the process each live thread was created
in.  The table follows the kernel as long as no id comes back for another
process.
-/

namespace Lo2s

open Foundation Stateful

namespace ExecutionScopeGroup

theorem lookup_addThread (thread other : Thread) (process : Process)
    (groups : ExecutionScopeGroup) :
    AList.lookup (.thread other) (groups.addThread thread process) =
      if other = thread then
        some ((groups.lookup (.thread thread)).getD (.process process))
      else groups.lookup (.thread other) := by
  simp [addThread, FiniteMap.lookup_insertIfNew]

theorem addProcess_eq (process : Process) (groups : ExecutionScopeGroup) :
    groups.addProcess process = groups.addThread ⟨process.pid⟩ process := rfl

/-- Threads are mapped to processes. -/
def Grouped (groups : ExecutionScopeGroup) : Prop :=
  ∀ thread scope, groups.lookup (.thread thread) = some scope →
    ∃ process, scope = .process process

theorem Grouped.addThread {groups : ExecutionScopeGroup}
    (grouped : Grouped groups) (thread : Thread) (process : Process) :
    Grouped (groups.addThread thread process) := by
  intro other scope found
  rw [lookup_addThread] at found
  split_ifs at found with same
  · rw [Option.some.injEq] at found
    subst found
    cases known : groups.lookup (.thread thread) with
    | none => exact ⟨process, rfl⟩
    | some old => exact grouped thread old known
  · exact grouped other scope found

theorem lookup_addCpus (cpus : List Int64) (thread : Thread)
    (groups : ExecutionScopeGroup) :
    AList.lookup (.thread thread)
        (cpus.foldl (fun groups cpu => addCpu cpu groups) groups) =
      groups.lookup (.thread thread) := by
  induction cpus generalizing groups with
  | nil => rfl
  | cons cpu cpus induction =>
      rw [List.foldl_cons, induction, addCpu, FiniteMap.lookup_insertIfNew]
      simp

theorem lookup_ofTrace (cpus : List Int64) (thread : Thread) :
    AList.lookup (.thread thread) (ofTrace cpus) =
      if thread = ⟨0⟩ then some (.process ⟨0⟩) else none := by
  rw [ofTrace, addProcess_eq, lookup_addThread]
  simp only [lookup_addCpus]
  rfl

theorem Grouped.ofTrace (cpus : List Int64) : Grouped (ofTrace cpus) := by
  intro thread scope found
  rw [lookup_ofTrace] at found
  split_ifs at found
  exact ⟨⟨0⟩, (Option.some.inj found).symm⟩

theorem getProcess_of_lookup {groups : ExecutionScopeGroup} {thread : Thread}
    {process : Process}
    (found : groups.lookup (.thread thread) = some (.process process)) :
    groups.getProcess thread = .ok process := by
  rw [getProcess, found]
  rfl

end ExecutionScopeGroup

/-- What the kernel reports with a wait status: a new process, a new thread that
another one has created in a process, or the end of a thread. -/
inductive Report where
  | forked (process : Process)
  | cloned (creator thread : Thread) (process : Process)
  | exited (thread : Thread)
  deriving DecidableEq, Repr

namespace Report

/-- The message of an event, if it can be asked for. -/
def message? (os : OperatingSystem) (c : ProcessController) : Option Int64 :=
  match os.ptrace c.ptraceCalls.length with
  | .error _ => none
  | .ok message => some message.toInt64

/-- The report of an event of `child`, which runs in `origin`. -/
def ofEvent (os : OperatingSystem) (c : ProcessController) (child : Thread)
    (origin : Process) (event : Int32) : Option Report :=
  if event = ProcessController.ptraceEventFork ∨
      event = ProcessController.ptraceEventVfork then
    (message? os c).map fun pid => .forked ⟨pid⟩
  else if event = ProcessController.ptraceEventClone then
    (message? os c).map fun tid => .cloned child ⟨tid⟩ origin
  else if event = ProcessController.ptraceEventExec then none
  else if event = ProcessController.ptraceEventExit then some (.exited child)
  else none

/-- The report of a wait status of `child`, which runs in `origin`. -/
def ofStatus (os : OperatingSystem) (c : ProcessController) (child : Thread)
    (origin : Process) (status : Int32) : Option Report :=
  if ProcessController.wifstopped status then
    if ProcessController.wstopsig status = ProcessController.sigStop then none
    else if ProcessController.wstopsig status = ProcessController.sigTrap then
      if status >>> 16 ≠ 0 then ofEvent os c child origin (status >>> 16)
      else none
    else none
  else if ProcessController.wifexited status ||
      ProcessController.wifsignaled status then some (.exited child)
  else none

/-- What a report does to the table. -/
def register (groups : ExecutionScopeGroup) :
    Option Report → ExecutionScopeGroup
  | some (.forked process) => groups.addProcess process
  | some (.cloned creator thread _) =>
      match groups.getProcess creator with
      | .error _ => groups
      | .ok process => groups.addThread thread process
  | _ => groups

/-- What a report does to the processes of the live threads. -/
def settle (home : Thread → Option Process) :
    Option Report → Thread → Option Process
  | some (.forked process) => Function.update home ⟨process.pid⟩ (some process)
  | some (.cloned _ thread process) =>
      Function.update home thread (some process)
  | some (.exited thread) => Function.update home thread none
  | none => home

/-- An id that has an entry already has one for the same process, and a thread
under a new id is created by a thread whose process is known. -/
def Fits (groups : ExecutionScopeGroup) : Option Report → Prop
  | some (.forked process) =>
      ∀ scope, groups.lookup (.thread ⟨process.pid⟩) = some scope →
        scope = .process process
  | some (.cloned creator thread process) =>
      (∀ scope, groups.lookup (.thread thread) = some scope →
        scope = .process process) ∧
      (groups.lookup (.thread thread) = none →
        groups.getProcess creator = .ok process)
  | _ => True

section

variable {groups : ExecutionScopeGroup} {report : Option Report}

theorem register_grouped (grouped : groups.Grouped) (report : Option Report) :
    (register groups report).Grouped := by
  unfold register
  split
  · exact grouped.addThread _ _
  · split
    · exact grouped
    · exact grouped.addThread _ _
  · exact grouped

theorem exists_getProcess (grouped : groups.Grouped) (thread : Thread) :
    ∃ process, groups.getProcess thread = .ok process := by
  cases known : groups.lookup (.thread thread) with
  | none => exact ⟨⟨0⟩, by rw [ExecutionScopeGroup.getProcess, known]⟩
  | some scope =>
      obtain ⟨process, rfl⟩ := grouped thread scope known
      exact ⟨process, ExecutionScopeGroup.getProcess_of_lookup known⟩

private theorem lookup_addThread_update {home : Thread → Option Process}
    (known : ∀ thread process, home thread = some process →
      groups.lookup (.thread thread) = some (.process process))
    {added : Thread} {entered created : Process}
    (old : ∀ scope, groups.lookup (.thread added) = some scope →
      scope = .process created)
    (new : groups.lookup (.thread added) = none → entered = created)
    {thread : Thread} {process : Process}
    (lives : Function.update home added (some created) thread = some process) :
    AList.lookup (.thread thread) (groups.addThread added entered) =
      some (.process process) := by
  rw [ExecutionScopeGroup.lookup_addThread]
  by_cases same : thread = added
  · rw [if_pos same]
    rw [same, Function.update_self, Option.some.injEq] at lives
    subst lives
    cases entry : groups.lookup (.thread added) with
    | none => rw [Option.getD_none, new entry]
    | some scope => rw [Option.getD_some, old scope entry]
  · rw [if_neg same]
    rw [Function.update_of_ne same] at lives
    exact known thread process lives

/-- The entries of the live threads stay right where a report fits. -/
theorem lookup_register (grouped : groups.Grouped)
    {home : Thread → Option Process}
    (known : ∀ thread process, home thread = some process →
      groups.lookup (.thread thread) = some (.process process))
    (fits : Fits groups report) {thread : Thread} {process : Process}
    (lives : settle home report thread = some process) :
    AList.lookup (.thread thread) (register groups report) =
      some (.process process) := by
  cases report with
  | none => exact known thread process lives
  | some report =>
  cases report with
  | forked created =>
      exact lookup_addThread_update known fits (fun _ => rfl) lives
  | cloned creator added created =>
      obtain ⟨old, new⟩ := fits
      obtain ⟨entered, found⟩ := exists_getProcess grouped creator
      rw [register, found]
      apply lookup_addThread_update known old _ lives
      intro absent
      rw [new absent, Except.ok.injEq] at found
      exact found.symm
  | exited gone =>
      by_cases same : thread = gone
      · rw [settle, same, Function.update_self] at lives
        cases lives
      · rw [settle, Function.update_of_ne same] at lives
        exact known thread process lives

private theorem entry_of_getProcess {added : Thread} {entered created : Process}
    {scope : ExecutionScope}
    (entry : groups.lookup (.thread added) = some scope)
    (found : (groups.addThread added entered).getProcess added = .ok created) :
    scope = .process created := by
  rw [ExecutionScopeGroup.getProcess, ExecutionScopeGroup.lookup_addThread,
    if_pos rfl, entry] at found
  cases scope with
  | process old => rw [show old = created from Except.ok.inj found]
  | thread _ => cases found
  | cpu _ => cases found

/-- A report fits if its thread is attributed to its process afterwards. -/
theorem fits_of_getProcess (grouped : groups.Grouped)
    {home : Thread → Option Process}
    (attributed : ∀ thread process,
      settle home report thread = some process →
        (register groups report).getProcess thread = .ok process) :
    Fits groups report := by
  cases report with
  | none => trivial
  | some report =>
  cases report with
  | forked created =>
      intro scope entry
      have found := attributed ⟨created.pid⟩ created
        (Function.update_self _ _ _)
      exact entry_of_getProcess entry found
  | cloned creator added created =>
      have found := attributed added created (Function.update_self _ _ _)
      obtain ⟨entered, asked⟩ := exists_getProcess grouped creator
      rw [register, asked] at found
      refine ⟨fun scope entry => entry_of_getProcess entry found, ?_⟩
      intro absent
      rw [ExecutionScopeGroup.getProcess, ExecutionScopeGroup.lookup_addThread,
        if_pos rfl, absent] at found
      rw [asked, show entered = created from Except.ok.inj found]
  | exited gone => trivial

end

end Report

namespace ProcessController

/-- The table stays as it is. -/
def SameGroups (c next : ProcessController) : Prop := next.groups = c.groups

instance : Std.Refl SameGroups := ⟨fun _ => rfl⟩

instance : IsTrans ProcessController SameGroups :=
  ⟨fun _ _ _ left right => Eq.trans right left⟩

theorem SameGroups.rules : RequestRules SameGroups := ⟨fun _ _ _ => rfl⟩

theorem getProcess_apply (thread : Thread) (c : ProcessController) :
    getProcess thread c =
      ((c.groups.getProcess thread).mapError ControllerFailure.failure, c) := by
  change (match c.groups.getProcess thread with
    | .error failure => (throw (ControllerFailure.failure failure) : Handling _)
    | .ok process => pure process) _ = _
  cases c.groups.getProcess thread <;> rfl

theorem handlePtraceEvent_groups (os : OperatingSystem) (child : Thread)
    (origin : Process) (event : Int32) (c : ProcessController) :
    (handlePtraceEvent os child event c).2.groups =
      Report.register c.groups
        (Report.ofEvent os c child origin event) := by
  unfold handlePtraceEvent Report.ofEvent
  split_ifs
  · simp only [ptraceGeteventmsg, bind_apply, ptraceCheckedCall_apply,
      Report.message?]
    cases os.ptrace c.ptraceCalls.length with
    | error code => rfl
    | ok message =>
        -- Behind the change, the table is only read.
        let told (parent : Process) : Handling Unit :=
          tellMonitor (.insertProcess parent ⟨message.toInt64⟩
            (os.processComm ⟨message.toInt64⟩) false)
        have asked : Moves SameGroups (getProcess child) :=
          getProcess_moves child
        have rest : Moves SameGroups (getProcess child >>= told) :=
          moves_bind asked fun _ _ => rfl
        exact rest _
  · simp only [ptraceGeteventmsg, bind_apply, ptraceCheckedCall_apply,
      Report.message?]
    cases os.ptrace c.ptraceCalls.length with
    | error code => rfl
    | ok message =>
        simp only [Except.mapError, getProcess_apply, Option.map_some,
          Report.register]
        cases c.groups.getProcess child with
        | error failure => rfl
        | ok process => rfl
  · rfl
  · rfl
  · rfl

theorem handleStop_groups (os : OperatingSystem) (child : Thread)
    (origin : Process) {status : Int32} (stopped : wifstopped status = true)
    (c : ProcessController) :
    (handleStop os child status c).2.groups =
      Report.register c.groups
        (Report.ofStatus os c child origin status) := by
  have done : Moves SameGroups
      (pure .keepRunning : Handling SignalHandlingState) :=
    moves_pure _
  have continued : Moves SameGroups (do
      ptraceCont os child 0
      return SignalHandlingState.keepRunning) :=
    moves_bind (SameGroups.rules.cont os child 0) fun _ => done
  unfold handleStop Report.ofStatus
  rw [if_pos stopped]
  split_ifs
  · exact moves_bind (SameGroups.rules.setoptions os child _)
      (fun _ => continued) c
  · have event := handlePtraceEvent_groups os child origin (status >>> 16) c
    rw [← event]
    change ((handlePtraceEvent os child (status >>> 16) >>= fun _ => do
      ptraceCont os child 0
      return SignalHandlingState.keepRunning) c).2.groups = _
    rw [bind_apply]
    rcases handlePtraceEvent os child (status >>> 16) c with ⟨_ | _, next⟩
    · rfl
    · exact continued next
  · exact continued c
  · exact moves_bind (SameGroups.rules.forward os child _) (fun _ => done) c

/-- The table changes with what is reported, and with nothing else. -/
theorem handleSignal_groups (os : OperatingSystem) (child : Thread)
    (origin : Process) (status : Int32) {c : ProcessController}
    (attached : c.attachedPid ≠ 0) :
    (handleSignal os child status c).2.groups =
      Report.register c.groups
        (Report.ofStatus os c child origin status) := by
  unfold handleSignal
  split_ifs with stopped gone
  · rw [handleStopSignal_eq os child status attached]
    exact handleStop_groups os child origin stopped c
  · rw [Report.ofStatus, if_neg stopped, if_pos gone]
    rfl
  · rw [Report.ofStatus, if_neg stopped, if_neg gone]
    exact moves_bind (SameGroups.rules.cont os child 0)
      (fun _ => moves_pure _) c

end ProcessController

/-- An input, and the process that the woken thread runs in. -/
structure TracedInput where
  input : ControllerInput
  origin : Process
  deriving DecidableEq, Repr

/-- A run, and the process in which each live thread was created most
recently. -/
structure TracedRun where
  run : ControllerRun
  home : Thread → Option Process

namespace TracedRun

/-- A controller whose first child is the only live thread. -/
def start (cpus : List Int64) (child : Process) (name : String)
    (spawn : Bool) : TracedRun :=
  { run := .start (.init (.ofTrace cpus) child name spawn)
    home := Function.update (fun _ => none) ⟨child.pid⟩ (some child) }

/-- What is reported with an input. -/
def report (os : OperatingSystem) (s : TracedRun) (x : TracedInput) :
    Option Report :=
  match s.run.ended, x.input with
  | none, .wakeup child status =>
      Report.ofStatus os s.run.controller child x.origin status
  | _, _ => none

/-- One input. -/
def step (os : OperatingSystem) (s : TracedRun) (x : TracedInput) :
    Except Failure TracedRun :=
  .ok
    { run := s.run.handle os x.input
      home := Report.settle s.home (s.report os x) }

/-- Every live thread is attributed to the process it was created in. -/
def Attributed (s : TracedRun) : Prop :=
  ∀ thread process, s.home thread = some process →
    s.run.controller.groups.getProcess thread = .ok process

/-- What holds along a run whose reports fit. -/
private structure Following (s : TracedRun) : Prop where
  attached : s.run.controller.attachedPid ≠ 0
  grouped : s.run.controller.groups.Grouped
  known : ∀ thread process, s.home thread = some process →
    s.run.controller.groups.lookup (.thread thread) = some (.process process)

private theorem Following.start (cpus : List Int64) {child : Process}
    (isRunning : child.Running) (name : String) (spawn : Bool) :
    Following (start cpus child name spawn) where
  attached := ControllerRun.start_attached _ isRunning name spawn
  grouped := (ExecutionScopeGroup.Grouped.ofTrace cpus).addThread _ child
  known := by
    intro thread process lives
    have positive := isRunning.positive
    have notIdle : (⟨child.pid⟩ : Thread) ≠ ⟨0⟩ := by
      intro same
      rw [(Thread.mk.injEq _ _).mp same] at positive
      exact absurd positive (by decide)
    change AList.lookup (.thread thread)
      ((ExecutionScopeGroup.ofTrace cpus).addThread ⟨child.pid⟩ child) = _
    have lives : Function.update (fun _ => none) ⟨child.pid⟩ (some child)
        thread = some process := lives
    rw [ExecutionScopeGroup.lookup_addThread]
    by_cases same : thread = ⟨child.pid⟩
    · rw [same, Function.update_self, Option.some.injEq] at lives
      rw [if_pos same, ExecutionScopeGroup.lookup_ofTrace, if_neg notIdle,
        lives]
      rfl
    · rw [Function.update_of_ne same] at lives
      cases lives

theorem handle_groups (os : OperatingSystem) {s : TracedRun}
    (attached : s.run.controller.attachedPid ≠ 0) (x : TracedInput) :
    (s.run.handle os x.input).controller.groups =
      Report.register s.run.controller.groups (s.report os x) := by
  obtain ⟨input, origin⟩ := x
  unfold ControllerRun.handle report
  cases s.run.ended with
  | some _ => rfl
  | none =>
      cases input with
      | sigint =>
          change s.run.controller.sigHandler.groups = s.run.controller.groups
          unfold ProcessController.sigHandler
          split_ifs
          · rfl
          · rfl
      | wakeup child status =>
          simp only [ControllerRun.ofResult_controller]
          exact ProcessController.handleSignal_groups os child origin status
            attached

/-- The table attributes every live thread to its process all along a run
exactly when every report fits: no id comes back for another process, and a
thread is created by one that is known. -/
theorem attributed_iff (os : OperatingSystem) (cpus : List Int64)
    {child : Process} (isRunning : child.Running) (name : String)
    (spawn : Bool) (inputs : List TracedInput) :
    Always (step os) (start cpus child name spawn) (fun _ s => Attributed s)
      inputs ↔
    EveryStep (step os) (start cpus child name spawn)
      (fun s x => Report.Fits s.run.controller.groups (s.report os x))
      inputs := by
  refine always_iff (fun _ s => Following s) ?_ ?_ ?_
    (Following.start cpus isRunning name spawn)
    (.of_forall (fun _ _ => trivial) _ inputs)
  · intro _ s following thread process lives
    exact ExecutionScopeGroup.getProcess_of_lookup
      (following.known thread process lives)
  · intro _ s x following _ fits
    have groups := handle_groups os following.attached x
    refine ⟨_, rfl, ?_, ?_, ?_⟩
    · have kept := ControllerRun.handle_undetached os x.input
        following.attached
      exact kept.attachedPid ▸ following.attached
    · exact groups ▸ Report.register_grouped following.grouped _
    · intro thread process lives
      rw [groups]
      exact Report.lookup_register following.grouped following.known fits lives
  · intro _ s x next following _ stepped attributed
    cases stepped
    have groups := handle_groups os following.attached x
    apply Report.fits_of_getProcess following.grouped
    intro thread process lives
    rw [← groups]
    exact attributed thread process lives

/-- Every message is 101. -/
def always101 : OperatingSystem :=
  ⟨fun _ => .ok 101, fun _ => "sh", fun _ _ => "sh"⟩

/-- Process 100 creates thread 101. -/
def cloneOf101 : TracedInput := ⟨.wakeup ⟨100⟩ 0x3057f, ⟨100⟩⟩

theorem attributed_iff_clone :
    Always (step always101) (start [0] ⟨100⟩ "sh" true)
        (fun _ s => Attributed s) [cloneOf101] ↔
      EveryStep (step always101) (start [0] ⟨100⟩ "sh" true)
        (fun s x => Report.Fits s.run.controller.groups (s.report always101 x))
        [cloneOf101] :=
  attributed_iff always101 [0] ⟨by decide, by decide⟩ "sh" true _

/-- Thread 101 exits, and process 100 forks a process that gets its id. -/
theorem reused_id_misattributed :
    ∃ s, Foundation.run (step always101) (start [0] ⟨100⟩ "sh" true)
        [cloneOf101, ⟨.wakeup ⟨101⟩ 0x6057f, ⟨100⟩⟩,
          ⟨.wakeup ⟨101⟩ 0, ⟨100⟩⟩, ⟨.wakeup ⟨100⟩ 0x1057f, ⟨100⟩⟩] = .ok s ∧
      s.home ⟨101⟩ = some ⟨101⟩ ∧
        s.run.controller.groups.getProcess ⟨101⟩ = .ok ⟨100⟩ ∧
          ¬ Attributed s := by
  refine ⟨_, rfl, rfl, rfl, fun attributed => ?_⟩
  have wrong := attributed ⟨101⟩ ⟨101⟩ rfl
  exact absurd wrong (by decide)

end TracedRun

end Lo2s
