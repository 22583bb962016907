import Lo2s.ThreadAttribution

/-!
# Tracees that die while they are stopped

A request about a thread that has been killed meanwhile fails with `ESRCH`.
Only the forwarding of a signal is prepared for that.  Every other request of
a handler lets the exception out of `run`, so that the measurement goes on
exactly as long as those requests succeed.
-/

namespace Lo2s

open Foundation Stateful

namespace ProcessController

/-- The requests for a wait status that are not made within a `try`, in their
order. -/
def uncaughtRequests (status : Int32) : List PtraceRequest :=
  if wifstopped status then
    if wstopsig status = sigStop then [.setOptions traceOptions, .cont 0]
    else if wstopsig status = sigTrap then
      if status >>> 16 = ptraceEventFork ∨ status >>> 16 = ptraceEventVfork ∨
          status >>> 16 = ptraceEventClone then [.getEventMsg, .cont 0]
      else [.cont 0]
    else []
  else if wifexited status || wifsignaled status then []
  else [.cont 0]

/-- The next requests are answered, where `made` have been made before. -/
def Answered (os : OperatingSystem) (made count : Nat) : Prop :=
  ∀ i < count, ∃ answer, os.ptrace (made + i) = .ok answer

theorem Answered.zero (os : OperatingSystem) (made : Nat) :
    Answered os made 0 :=
  fun _ impossible => absurd impossible (Nat.not_lt_zero _)

theorem answered_one_iff {os : OperatingSystem} {made : Nat} :
    Answered os made 1 ↔ ∃ answer, os.ptrace made = .ok answer := by
  constructor
  · exact fun answered => answered 0 Nat.one_pos
  · intro answered i below
    rw [Nat.lt_one_iff.mp below]
    exact answered

theorem answered_add_iff {os : OperatingSystem} {made first second : Nat} :
    Answered os made (first + second) ↔
      Answered os made first ∧ Answered os (made + first) second := by
  constructor
  · intro answered
    refine ⟨fun i below => answered i (by omega), fun i below => ?_⟩
    rw [Nat.add_assoc]
    exact answered (first + i) (by omega)
  · intro both i below
    by_cases early : i < first
    · exact both.1 i early
    · obtain ⟨answer, given⟩ := both.2 (i - first) (by omega)
      rw [show made + first + (i - first) = made + i by omega] at given
      exact ⟨answer, given⟩

/-- A computation that makes so many requests succeeds if they are answered,
and throws a `std::system_error` otherwise. -/
structure AsksFrom (os : OperatingSystem) (count : Nat) {α : Type}
    (c : ProcessController)
    (result : Except ControllerFailure α × ProcessController) : Prop where
  grouped : result.2.groups.Grouped
  succeeds : Answered os c.ptraceCalls.length count →
    (∃ value, result.1 = .ok value) ∧
      result.2.ptraceCalls.length = c.ptraceCalls.length + count
  fails : ¬ Answered os c.ptraceCalls.length count →
    ∃ code, result.1 = .error (.systemError code)

def Asks (os : OperatingSystem) (count : Nat) {α : Type}
    (body : Handling α) : Prop :=
  ∀ c : ProcessController, c.groups.Grouped → AsksFrom os count c (body c)

/-- `run` goes on if the requests are answered; otherwise an exception leaves
it. -/
structure Continues (os : OperatingSystem) (count : Nat)
    (c : ProcessController)
    (result : Except ControllerFailure SignalHandlingState) : Prop where
  goesOn : Answered os c.ptraceCalls.length count → result = .ok .keepRunning
  escapes : ¬ Answered os c.ptraceCalls.length count →
    ∃ code, result = .error (.systemError code)

section

variable {os : OperatingSystem}

theorem asks_zero {α : Type} {body : Handling α}
    (quiet : ∀ c : ProcessController, c.groups.Grouped →
      ∃ value next, body c = (.ok value, next) ∧ next.groups.Grouped ∧
        next.ptraceCalls = c.ptraceCalls) : Asks os 0 body := by
  intro c grouped
  obtain ⟨value, next, result, nextGrouped, calls⟩ := quiet c grouped
  refine ⟨by rw [result]; exact nextGrouped, fun _ => ⟨⟨value, ?_⟩, ?_⟩,
    fun unanswered => absurd (.zero os _) unanswered⟩
  · rw [result]
  · rw [result, calls]
    rfl

theorem asks_pure {α : Type} (value : α) :
    Asks os 0 (pure value : Handling α) :=
  asks_zero fun c grouped => ⟨value, c, rfl, grouped, rfl⟩

theorem asks_bind {α β : Type} {first second : Nat} {body : Handling α}
    {next : α → Handling β} (asks : Asks os first body)
    (nextAsks : ∀ value, Asks os second (next value)) :
    Asks os (first + second) (body >>= next) := by
  intro c grouped
  have start := asks c grouped
  rw [bind_apply]
  rcases result : body c with ⟨thrown | value, middle⟩
  · rw [result] at start
    have unanswered : ¬ Answered os c.ptraceCalls.length first := by
      intro answered
      obtain ⟨⟨value, ok⟩, _⟩ := start.succeeds answered
      cases ok
    refine ⟨start.grouped, ?_, fun _ => ?_⟩
    · intro answered
      exact absurd (answered_add_iff.mp answered).1 unanswered
    · obtain ⟨code, same⟩ := start.fails unanswered
      cases same
      exact ⟨code, rfl⟩
  · rw [result] at start
    have answered : Answered os c.ptraceCalls.length first := by
      by_contra unanswered
      obtain ⟨code, error⟩ := start.fails unanswered
      cases error
    have length := (start.succeeds answered).2
    change middle.ptraceCalls.length = _ at length
    have rest := nextAsks value middle start.grouped
    refine ⟨rest.grouped, fun both => ?_, fun notBoth => ?_⟩
    · have later := (answered_add_iff.mp both).2
      rw [← length] at later
      obtain ⟨ok, after⟩ := rest.succeeds later
      exact ⟨ok, by rw [after, length, Nat.add_assoc]⟩
    · apply rest.fails
      rw [length]
      exact fun later => notBoth (answered_add_iff.mpr ⟨answered, later⟩)

theorem asks_before {α β : Type} {count : Nat} {body : Handling α}
    {next : α → Handling β} (asks : Asks os count body)
    (quiet : ∀ value, Asks os 0 (next value)) :
    Asks os count (body >>= next) :=
  asks_bind asks quiet

theorem asks_after {α β : Type} {count : Nat} {body : Handling α}
    {next : α → Handling β} (quiet : Asks os 0 body)
    (asks : ∀ value, Asks os count (next value)) :
    Asks os count (body >>= next) :=
  Nat.zero_add count ▸ asks_bind quiet asks

variable (os)

theorem asks_checkedCall (request : PtraceRequest) (thread : Thread) :
    Asks os 1 (ptraceCheckedCall os request thread) := by
  intro c grouped
  rw [ptraceCheckedCall_apply]
  cases answer : os.ptrace c.ptraceCalls.length with
  | error code =>
      refine ⟨grouped, fun answered => ?_, fun _ => ⟨code, rfl⟩⟩
      obtain ⟨value, ok⟩ := answered_one_iff.mp answered
      rw [answer] at ok
      cases ok
  | ok value =>
      refine ⟨grouped, fun _ => ⟨⟨value, rfl⟩, by simp⟩, fun unanswered => ?_⟩
      exact absurd (answered_one_iff.mpr ⟨value, answer⟩) unanswered

theorem asks_cont (thread : Thread) (signum : Int32) :
    Asks os 1 (ptraceCont os thread signum) :=
  asks_before (asks_checkedCall os _ thread) fun _ => asks_pure _

theorem asks_setoptions (thread : Thread) (options : UInt64) :
    Asks os 1 (ptraceSetoptions os thread options) :=
  asks_before (asks_checkedCall os _ thread) fun _ => asks_pure _

variable {os}

theorem asks_tellMonitor (call : MonitorCall) : Asks os 0 (tellMonitor call) :=
  asks_zero fun _ grouped => ⟨⟨⟩, _, rfl, grouped, rfl⟩

theorem asks_getProcess (thread : Thread) : Asks os 0 (getProcess thread) :=
  asks_zero fun c grouped => by
    obtain ⟨process, found⟩ := Report.exists_getProcess grouped thread
    exact ⟨process, c, by rw [getProcess_apply, found]; rfl, grouped, rfl⟩

theorem asks_addThread (thread : Thread) (process : Process) :
    Asks os 0 (changeGroups (·.addThread thread process)) :=
  asks_zero fun _ grouped =>
    ⟨⟨⟩, _, rfl, grouped.addThread thread process, rfl⟩

variable (os)

/-- The message of a fork or a clone is asked for, and nothing else. -/
theorem asks_handlePtraceEvent (child : Thread) (event : Int32) :
    Asks os
      (if event = ptraceEventFork ∨ event = ptraceEventVfork ∨
        event = ptraceEventClone then 1 else 0)
      (handlePtraceEvent os child event) := by
  unfold handlePtraceEvent
  by_cases forked : event = ptraceEventFork ∨ event = ptraceEventVfork
  · rw [if_pos (by rcases forked with same | same <;> simp [same]),
      if_pos forked]
    apply asks_before (asks_checkedCall os _ child)
    intro message
    apply asks_after (asks_addThread ⟨message.toInt64⟩ ⟨message.toInt64⟩)
    intro _
    exact asks_after (asks_getProcess child) fun _ => asks_tellMonitor _
  · rw [if_neg forked]
    by_cases cloned : event = ptraceEventClone
    · rw [if_pos (by simp [cloned]), if_pos cloned]
      apply asks_before (asks_checkedCall os _ child)
      intro message
      apply asks_after (asks_getProcess child)
      intro process
      exact asks_after (asks_addThread _ _) fun _ => asks_tellMonitor _
    · rw [if_neg (by tauto), if_neg cloned]
      split_ifs
      · exact asks_tellMonitor _
      · exact asks_tellMonitor _
      · exact asks_pure _

theorem forward_ok (gone : ∀ i code, os.ptrace i = .error code → code = esrch)
    (thread : Thread) (signum : Int32) :
    ∀ c, (tryCatch (ptraceCont os thread signum) (fun thrown =>
      if thrown = .systemError esrch then pure () else throw thrown) c).1 =
        .ok () := by
  intro c
  rw [tryCatch_apply, ptraceCont, bind_apply, ptraceCheckedCall_apply]
  cases answer : os.ptrace c.ptraceCalls.length with
  | ok value => rfl
  | error code =>
      rw [gone _ _ answer]
      rfl

variable {os}

theorem Asks.continues {count : Nat} {body : Handling SignalHandlingState}
    (asks : Asks os count body) (returns : Returns .keepRunning body)
    {c : ProcessController} (grouped : c.groups.Grouped) :
    Continues os count c (body c).1 := by
  refine ⟨fun answered => ?_, (asks c grouped).fails⟩
  obtain ⟨⟨value, result⟩, _⟩ := (asks c grouped).succeeds answered
  rw [result, returns c value result]

variable (os)

theorem handleStop_continues
    (gone : ∀ i code, os.ptrace i = .error code → code = esrch)
    (child : Thread) {status : Int32} (stopped : wifstopped status = true)
    {c : ProcessController} (grouped : c.groups.Grouped) :
    Continues os (uncaughtRequests status).length c
      (handleStop os child status c).1 := by
  have continued : Asks os 1 (do
      ptraceCont os child 0
      return SignalHandlingState.keepRunning) :=
    asks_before (asks_cont os child 0) fun _ => asks_pure _
  have keepsRunning : Returns .keepRunning (do
      ptraceCont os child 0
      return SignalHandlingState.keepRunning) :=
    returns_bind fun _ => returns_pure _
  unfold handleStop uncaughtRequests
  rw [if_pos stopped]
  by_cases initial : wstopsig status = sigStop
  · rw [if_pos initial, if_pos initial]
    have asks := asks_bind (asks_setoptions os child traceOptions)
      fun _ => continued
    exact asks.continues (returns_bind fun _ => keepsRunning) grouped
  · rw [if_neg initial, if_neg initial]
    by_cases trap : wstopsig status = sigTrap
    · rw [if_pos trap, if_pos trap]
      by_cases event : status >>> 16 ≠ 0
      · have asks := asks_bind
          (asks_handlePtraceEvent os child (status >>> 16))
          fun _ => continued
        have count : (if status >>> 16 = ptraceEventFork ∨
            status >>> 16 = ptraceEventVfork ∨
            status >>> 16 = ptraceEventClone then
              [PtraceRequest.getEventMsg, .cont 0] else [.cont 0]).length =
          (if status >>> 16 = ptraceEventFork ∨
            status >>> 16 = ptraceEventVfork ∨
            status >>> 16 = ptraceEventClone then 1 else 0) + 1 := by
          split_ifs <;> rfl
        rw [if_pos event, count]
        exact asks.continues (returns_bind fun _ => keepsRunning) grouped
      · rw [ne_eq, not_not] at event
        rw [event]
        exact continued.continues keepsRunning grouped
    · -- The signal is forwarded.
      rw [if_neg trap, if_neg trap]
      refine ⟨fun _ => ?_, fun unanswered => absurd (.zero os _) unanswered⟩
      have forwarded := forward_ok os gone child (wstopsig status) c
      exact congrArg Prod.fst
        (bind_of_ok (fun _ => pure SignalHandlingState.keepRunning) forwarded)

/-- The first child stays. -/
def SameFirstChild (c next : ProcessController) : Prop :=
  next.firstChild = c.firstChild

instance : Std.Refl SameFirstChild := ⟨fun _ => rfl⟩

instance : IsTrans ProcessController SameFirstChild :=
  ⟨fun _ _ _ left right => Eq.trans right left⟩

theorem SameFirstChild.rules : HandlerRules SameFirstChild where
  request _ _ _ := rfl
  call _ _ := rfl
  groups _ _ := rfl

/-- The first child has exited or has been killed. -/
def ReportsEnd (c : ProcessController) (child : Thread) (status : Int32) :
    Prop :=
  child = c.firstChild ∧ wifstopped status = false ∧
    (wifexited status = true ∨ wifsignaled status = true)

theorem handleSignal_result
    (gone : ∀ i code, os.ptrace i = .error code → code = esrch)
    (child : Thread) (status : Int32) {c : ProcessController}
    (grouped : c.groups.Grouped) (attached : c.attachedPid ≠ 0) :
    (ReportsEnd c child status ∧
      (handleSignal os child status c).1 = .ok .stop) ∨
    Continues os (uncaughtRequests status).length c
      (handleSignal os child status c).1 := by
  unfold handleSignal
  by_cases stopped : wifstopped status = true
  · rw [if_pos stopped, handleStopSignal_eq os child status attached]
    exact .inr (handleStop_continues os gone child stopped grouped)
  · rw [if_neg stopped]
    by_cases ended : (wifexited status || wifsignaled status) = true
    · rw [if_pos ended]
      by_cases first : child = c.firstChild
      · refine .inl ⟨⟨first, by simpa using stopped, by simpa using ended⟩, ?_⟩
        show (Except.ok (if child = c.firstChild then _ else _) : Except _ _) = _
        rw [if_pos first]
      · refine .inr ⟨fun _ => ?_, fun unanswered => ?_⟩
        · show (Except.ok (if child = c.firstChild then _ else _) :
            Except _ _) = _
          rw [if_neg first]
        · rw [uncaughtRequests, if_neg stopped, if_pos ended] at unanswered
          exact absurd (.zero os _) unanswered
    · rw [if_neg ended, uncaughtRequests, if_neg stopped, if_neg ended]
      have asks : Asks os 1 (do
          ptraceCont os child 0
          return SignalHandlingState.keepRunning) :=
        asks_before (asks_cont os child 0) fun _ => asks_pure _
      exact .inr (asks.continues (returns_bind fun _ => returns_pure _) grouped)

end

end ProcessController

namespace ControllerRun

/-- `run` ends only because the first child has exited, has been killed, or has
been detached. -/
def EndsWithFirstChild (os : OperatingSystem) (start : ControllerRun)
    (inputs : List ControllerInput) : Prop :=
  ∀ earlier input ended, earlier ++ [input] <+: inputs →
    (start.after os earlier).ended = none →
    (start.after os (earlier ++ [input])).ended = some ended →
      ended = .returned ∧
        ∃ child status, input = .wakeup child status ∧
          child = start.controller.firstChild ∧
          (ProcessController.ReportsEnd
              (start.after os earlier).controller child status ∨
            ∃ data, PtraceCall.mk (.detach data) child ∈
              callsOf os (start.after os earlier) input)

/-- Every request that is not made within a `try` is answered. -/
def RequestsAnswered (os : OperatingSystem) (start : ControllerRun)
    (inputs : List ControllerInput) : Prop :=
  ∀ earlier child status, earlier ++ [.wakeup child status] <+: inputs →
    (start.after os earlier).ended = none →
    ProcessController.Answered os
      (start.after os earlier).controller.ptraceCalls.length
      (ProcessController.uncaughtRequests status).length

section

variable {os : OperatingSystem} {start : ControllerRun}

/-- What is true of a controller all along a run. -/
structure Steady (start r : ControllerRun) : Prop where
  grouped : r.controller.groups.Grouped
  attached : r.controller.attachedPid ≠ 0
  firstChild : r.controller.firstChild = start.controller.firstChild

theorem Steady.handle {r : ControllerRun} (steady : Steady start r)
    (input : ControllerInput) : Steady start (r.handle os input) where
  grouped := by
    -- The groups do not depend on where a thread runs.
    have groups := TracedRun.handle_groups os
      (s := ⟨r, fun _ => none⟩) steady.attached ⟨input, ⟨0⟩⟩
    exact groups ▸ Report.register_grouped steady.grouped _
  attached := by
    have kept := handle_undetached os input steady.attached
    exact kept.attachedPid ▸ steady.attached
  firstChild := by
    rw [← steady.firstChild]
    unfold ControllerRun.handle
    cases r.ended with
    | some _ => rfl
    | none =>
        cases input with
        | sigint =>
            change r.controller.sigHandler.firstChild = _
            unfold ProcessController.sigHandler
            split_ifs
            · rfl
            · rfl
        | wakeup child status =>
            simp only [ofResult_controller]
            exact ProcessController.SameFirstChild.rules.handleSignal os child
              status steady.attached

theorem Steady.after (steady : Steady start start)
    (inputs : List ControllerInput) : Steady start (start.after os inputs) := by
  induction inputs using List.reverseRecOn with
  | nil => exact steady
  | append_singleton inputs input induction =>
      rw [after_append]
      exact induction.handle input

/-- Whether the loop goes on. -/
def endOf : Except ControllerFailure SignalHandlingState → Option ControllerEnd
  | .ok .keepRunning => none
  | .ok .stop => some .returned
  | .error thrown => some (.escaped thrown)

theorem ended_ofResult
    (result : Except ControllerFailure SignalHandlingState × ProcessController) :
    (ofResult result).ended = endOf result.1 := by
  rcases result with ⟨_ | _ | _, _⟩ <;> rfl

theorem ended_wakeup {r : ControllerRun} (going : r.ended = none)
    (child : Thread) (status : Int32) :
    (r.handle os (.wakeup child status)).ended =
      endOf (ProcessController.handleSignal os child status
        r.controller).1 := by
  unfold ControllerRun.handle
  rw [going]
  exact ended_ofResult _

/-- Where requests fail only because their thread is gone, the measurement goes
on until the end of the first child exactly as long as all requests that are
not made within a `try` are answered. -/
theorem endsWithFirstChild_iff
    (gone : ∀ i code, os.ptrace i = .error code →
      code = ProcessController.esrch)
    (cpus : List Int64) {child : Process} (isRunning : child.Running)
    (name : String) (spawn : Bool) (inputs : List ControllerInput) :
    EndsWithFirstChild os (.start (.init (.ofTrace cpus) child name spawn))
        inputs ↔
      RequestsAnswered os (.start (.init (.ofTrace cpus) child name spawn))
        inputs := by
  let start := ControllerRun.start (.init (.ofTrace cpus) child name spawn)
  have steady : Steady start start :=
    ⟨(ExecutionScopeGroup.Grouped.ofTrace cpus).addThread _ child,
      start_attached _ isRunning name spawn, rfl⟩
  have result : ∀ earlier thread status, _ := fun earlier thread status =>
    have reached : Steady start (start.after os earlier) := steady.after earlier
    ProcessController.handleSignal_result os gone thread status
      reached.grouped reached.attached
  have concat : ∀ earlier input, start.after os (earlier ++ [input]) =
      (start.after os earlier).handle os input := by
    intro earlier input
    rw [after_append]
    rfl
  constructor
  · intro ends earlier thread status within going
    rcases result earlier thread status with ⟨reports, _⟩ | continues
    · obtain ⟨_, notStopped, gone⟩ := reports
      rw [ProcessController.uncaughtRequests, notStopped,
        if_neg Bool.false_ne_true, if_pos (by simpa using gone)]
      exact .zero os _
    · by_contra unanswered
      obtain ⟨code, thrown⟩ := continues.escapes unanswered
      have ended : ((start.after os earlier).handle os
          (.wakeup thread status)).ended = endOf _ :=
        ended_wakeup going thread status
      rw [thrown, ← concat] at ended
      obtain ⟨returned, _⟩ := ends earlier _ _ within going ended
      cases returned
  · intro answered earlier input ended within going finished
    change (start.after os (earlier ++ [input])).ended = some ended at finished
    rw [concat] at finished
    cases input with
    | sigint =>
        change (start.after os earlier).ended = none at going
        rw [handle, going] at finished
        cases finished
    | wakeup thread status =>
        rw [ended_wakeup going] at finished
        rcases result earlier thread status with ⟨reports, stops⟩ | continues
        · rw [stops] at finished
          cases finished
          refine ⟨rfl, thread, status, rfl, ?_, .inl reports⟩
          exact reports.1.trans (steady.after earlier).firstChild
        · rw [continues.goesOn (answered earlier thread status within going)]
            at finished
          cases finished

end

/-- A system on which the third request finds that its thread is gone. -/
def thirdGone : OperatingSystem where
  ptrace i := if i = 2 then .error ProcessController.esrch else .ok 101
  processComm _ := "sh"
  taskComm _ _ := "sh"

theorem thirdGone_gone (i : Nat) (code : Int32)
    (failed : thirdGone.ptrace i = .error code) :
    code = ProcessController.esrch := by
  simp only [thirdGone] at failed
  split_ifs at failed
  exact (Except.error.inj failed).symm

/-- Process 100 clones thread 101. -/
def clone : ControllerInput := .wakeup ⟨100⟩ 0x3057f

/-- A signal for thread 101 arrives, but the thread is gone; the process
exits. -/
theorem endsWithFirstChild_iff_forwarded :
    EndsWithFirstChild thirdGone
        (.start (.init (.ofTrace [0]) ⟨100⟩ "sh" true))
        [clone, .wakeup ⟨101⟩ 0x0a7f, .wakeup ⟨100⟩ 0] ↔
      RequestsAnswered thirdGone
        (.start (.init (.ofTrace [0]) ⟨100⟩ "sh" true))
        [clone, .wakeup ⟨101⟩ 0x0a7f, .wakeup ⟨100⟩ 0] :=
  endsWithFirstChild_iff thirdGone_gone [0] ⟨by decide, by decide⟩ "sh" true _

/-- The new thread is killed in its first stop, before its options are set. -/
theorem killed_thread_aborts :
    ((ControllerRun.start (.init (.ofTrace [0]) ⟨100⟩ "sh" true)).after
        thirdGone [clone, .wakeup ⟨101⟩ stoppedBySigstop]).ended =
      some (.escaped (.systemError ProcessController.esrch)) ∧
    ¬ EndsWithFirstChild thirdGone
        (.start (.init (.ofTrace [0]) ⟨100⟩ "sh" true))
        [clone, .wakeup ⟨101⟩ stoppedBySigstop] := by
  refine ⟨by decide, fun ends => ?_⟩
  obtain ⟨returned, _⟩ := ends [clone] _ _ List.prefix_rfl (by decide)
    (show _ = some (.escaped (.systemError ProcessController.esrch)) by decide)
  cases returned

end ControllerRun

end Lo2s
