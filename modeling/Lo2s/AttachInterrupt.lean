import Lo2s.ProcessController

/-!
# Interrupting an attached controller

`sig_handler` asks for the tracees to be detached by clearing `running`.  The
branch of `handle_stop_signal` that detaches tests `!attached_pid`, which holds
for process 0 alone, so that no run of a controller ever detaches a thread.
-/

namespace Lo2s

open Foundation

/-- The process id of a running process, a positive `pid_t`. -/
structure Process.Running (process : Process) : Prop where
  positive : 0 < process.pid.toInt
  small : process.pid.toInt ≤ Int32.maxValue.toInt

theorem Process.Running.toInt32_ne_zero {process : Process}
    (running : process.Running) : process.pid.toInt32 ≠ 0 := by
  intro zero
  have positive := running.positive
  have small : process.pid.toInt ≤ 2147483647 := running.small
  have same : process.pid.toInt32.toInt = process.pid.toInt := by
    rw [Int64.toInt_toInt32]
    exact Int.bmod_eq_of_le (by omega) (by omega)
  rw [zero] at same
  have none : (0 : Int32).toInt = 0 := rfl
  omega

namespace ProcessController

/-- The pid the signal handler knows stays, and the requests made are no
requests to detach. -/
structure Undetached (c next : ProcessController) : Prop where
  attachedPid : next.attachedPid = c.attachedPid
  calls : ∃ new, next.ptraceCalls = c.ptraceCalls ++ new ∧
    ∀ call ∈ new, call.isDetach = false

namespace Undetached

instance : Std.Refl Undetached where
  refl _ := ⟨rfl, [], (List.append_nil _).symm, by simp⟩

instance : IsTrans ProcessController Undetached where
  trans := by
    intro first second third left right
    obtain ⟨early, earlyCalls, earlyKept⟩ := left.calls
    obtain ⟨late, lateCalls, lateKept⟩ := right.calls
    refine ⟨right.attachedPid.trans left.attachedPid, early ++ late, ?_, ?_⟩
    · rw [lateCalls, earlyCalls, List.append_assoc]
    · intro call member
      rcases List.mem_append.mp member with inEarly | inLate
      · exact earlyKept call inEarly
      · exact lateKept call inLate

theorem rules : HandlerRules Undetached where
  request _ call other := ⟨rfl, [call], rfl, by simpa using other⟩
  call _ _ := ⟨rfl, [], (List.append_nil _).symm, by simp⟩
  groups _ _ := ⟨rfl, [], (List.append_nil _).symm, by simp⟩

end Undetached

end ProcessController

/-- A wait status that reports the delivery of a signal, not an event. -/
def SignalDelivery (status : Int32) : Prop :=
  ProcessController.wifstopped status = true ∧ status >>> 16 = 0

instance (status : Int32) : Decidable (SignalDelivery status) :=
  inferInstanceAs (Decidable (_ ∧ _))

namespace ControllerRun

/-- The requests that are made while an input is handled. -/
def callsOf (os : OperatingSystem) (r : ControllerRun)
    (input : ControllerInput) : List PtraceCall :=
  (r.handle os input).controller.ptraceCalls.drop
    r.controller.ptraceCalls.length

/-- Since `SIGINT` was first received, no signal has been delivered to a
thread. -/
def AwaitsDelivery (earlier : List ControllerInput) (thread : Thread) : Prop :=
  ∃ before since, earlier = before ++ .sigint :: since ∧ .sigint ∉ before ∧
    ∀ status, .wakeup thread status ∈ since → ¬ SignalDelivery status

/-- What interrupting a controller is to do, all along a run. -/
structure Interruptible (os : OperatingSystem) (spawn : Bool)
    (start : ControllerRun) (inputs : List ControllerInput) : Prop where
  /-- Before `SIGINT`, and in spawn mode, nothing is detached. -/
  kept : ∀ earlier input, earlier ++ [input] <+: inputs →
    spawn = true ∨ .sigint ∉ earlier →
      ∀ call ∈ callsOf os (start.after os earlier) input, call.isDetach = false
  /-- Afterwards the next delivery of a signal to a thread detaches it, and
  nothing else is requested of it. -/
  detached : spawn = false → ∀ earlier thread status,
    earlier ++ [.wakeup thread status] <+: inputs →
    (start.after os earlier).ended = none → SignalDelivery status →
    AwaitsDelivery earlier thread →
      (∃ data, (callsOf os (start.after os earlier)
        (.wakeup thread status)).filter (·.thread = thread) =
          [⟨.detach data, thread⟩]) ∧
      (∀ between input,
        earlier ++ [.wakeup thread status] ++ between ++ [input] <+: inputs →
        ∀ call ∈ callsOf os
          (start.after os (earlier ++ [.wakeup thread status] ++ between))
          input, call.thread ≠ thread) ∧
      (thread = start.controller.firstChild →
        (start.after os (earlier ++ [.wakeup thread status])).ended =
          some .returned)

/-- A signal is delivered after `SIGINT` while `run` has not returned. -/
def DeliversAfterSigint (os : OperatingSystem) (start : ControllerRun)
    (inputs : List ControllerInput) : Prop :=
  ∃ earlier thread status, earlier ++ [.wakeup thread status] <+: inputs ∧
    (start.after os earlier).ended = none ∧ SignalDelivery status ∧
      .sigint ∈ earlier

section

variable {os : OperatingSystem} {start : ControllerRun}

theorem handle_undetached (os : OperatingSystem) {r : ControllerRun}
    (input : ControllerInput) (attached : r.controller.attachedPid ≠ 0) :
    ProcessController.Undetached r.controller
      (r.handle os input).controller := by
  unfold handle
  cases r.ended with
  | some _ => exact Std.Refl.refl _
  | none =>
      cases input with
      | sigint =>
          change ProcessController.Undetached r.controller
            r.controller.sigHandler
          unfold ProcessController.sigHandler
          split_ifs
          · exact ⟨rfl, [], (List.append_nil _).symm, by simp⟩
          · exact Std.Refl.refl _
      | wakeup child status =>
          simp only [ofResult_controller]
          exact ProcessController.Undetached.rules.handleSignal os child status
            attached

theorem after_attachedPid (os : OperatingSystem)
    (attached : start.controller.attachedPid ≠ 0) (inputs : List ControllerInput) :
    (start.after os inputs).controller.attachedPid =
      start.controller.attachedPid := by
  induction inputs using List.reverseRecOn with
  | nil => rfl
  | append_singleton inputs input induction =>
      rw [after_append]
      have kept := handle_undetached os input (induction ▸ attached)
      exact kept.attachedPid.trans induction

theorem callsOf_undetached (attached : start.controller.attachedPid ≠ 0)
    (earlier : List ControllerInput) (input : ControllerInput) :
    ∀ call ∈ callsOf os (start.after os earlier) input,
      call.isDetach = false := by
  have same := after_attachedPid os attached earlier
  obtain ⟨_, new, calls, kept⟩ :=
    handle_undetached os input (same ▸ attached)
  rw [callsOf, calls, List.drop_left]
  exact kept

/-- The first delivery to a thread after `SIGINT` is one it waits for. -/
theorem exists_awaited {inputs : List ControllerInput}
    (delivers : DeliversAfterSigint os start inputs) :
    ∃ earlier thread status, earlier ++ [.wakeup thread status] <+: inputs ∧
      (start.after os earlier).ended = none ∧ SignalDelivery status ∧
        AwaitsDelivery earlier thread := by
  obtain ⟨earlier, thread, status, within, going, delivery, received⟩ := delivers
  induction length : earlier.length using Nat.strong_induction_on
    generalizing earlier status with
  | _ length induction =>
      obtain ⟨before, since, split, first⟩ := List.eq_append_cons_of_mem received
      by_cases quiet : ∀ status, .wakeup thread status ∈ since →
          ¬ SignalDelivery status
      · exact ⟨earlier, thread, status, within, going, delivery, before, since,
          split, first, quiet⟩
      · -- A delivery to the same thread came in between.
        push Not at quiet
        obtain ⟨sooner, member, deliverySooner⟩ := quiet
        obtain ⟨start', rest, since_eq⟩ := List.append_of_mem member
        have shape : earlier = (before ++ .sigint :: start') ++
            ([.wakeup thread sooner] ++ rest) := by
          rw [split, since_eq]
          simp
        have goingSooner : (start.after os
            (before ++ .sigint :: start')).ended = none := by
          by_contra ended
          rw [shape, after_append, after_of_ended os ended] at going
          exact ended going
        have inside : before ++ .sigint :: start' ++ [.wakeup thread sooner] <+:
            inputs := by
          refine List.IsPrefix.trans ⟨rest ++ [.wakeup thread status], ?_⟩ within
          rw [shape]
          simp
        refine induction (before ++ .sigint :: start').length ?_ _ sooner inside
          goingSooner deliverySooner (by simp) rfl
        rw [← length, shape]
        simp

end

/-- A controller that has just been constructed is not attached to process
0. -/
theorem start_attached (groups : ExecutionScopeGroup) {child : Process}
    (isRunning : child.Running) (name : String) (spawn : Bool) :
    (ControllerRun.start
      (.init groups child name spawn)).controller.attachedPid ≠ 0 := by
  cases spawn with
  | true => exact show (-1 : Int32) ≠ 0 by decide
  | false => exact isRunning.toInt32_ne_zero

/-- A controller can be interrupted exactly in the runs in which nothing is to
be done for it: it has spawned its process, or no signal is delivered to a
thread after `SIGINT`. -/
theorem interruptible_iff (os : OperatingSystem) (groups : ExecutionScopeGroup)
    {child : Process} (isRunning : child.Running) (name : String)
    (spawn : Bool) (inputs : List ControllerInput) :
    Interruptible os spawn (.start (.init groups child name spawn)) inputs ↔
      spawn = true ∨
        ¬ DeliversAfterSigint os (.start (.init groups child name spawn))
          inputs := by
  have attached := start_attached groups isRunning name spawn
  constructor
  · intro interruptible
    cases spawn with
    | true => exact .inl rfl
    | false =>
        right
        intro delivers
        obtain ⟨earlier, thread, status, within, going, delivery, awaits⟩ :=
          exists_awaited delivers
        obtain ⟨⟨data, calls⟩, _⟩ := interruptible.detached rfl earlier thread
          status within going delivery awaits
        have made : PtraceCall.mk (.detach data) thread ∈
            callsOf os _ (.wakeup thread status) :=
          List.mem_of_mem_filter (calls ▸ List.mem_singleton_self _)
        cases callsOf_undetached attached earlier _ _ made
  · intro nothingToDo
    refine ⟨fun earlier input _ _ => callsOf_undetached attached earlier input,
      ?_⟩
    intro attachMode earlier thread status within going delivery awaits
    obtain ⟨before, since, rfl, _⟩ := awaits
    rcases nothingToDo with spawned | never
    · rw [attachMode] at spawned
      cases spawned
    · exact absurd ⟨_, thread, status, within, going, delivery, by simp⟩ never

/-- A system on which every request succeeds. -/
def willing : OperatingSystem :=
  ⟨fun _ => .ok 0, fun _ => "sleep", fun _ _ => "sleep"⟩

/-- The wait status of a stop by `SIGSTOP`. -/
def stoppedBySigstop : Int32 := 0x137f

theorem interruptible_iff_uninterrupted :
    Interruptible willing false (.start (.init (.ofTrace [0]) ⟨100⟩ "sleep"
        false)) [.wakeup ⟨100⟩ stoppedBySigstop, .sigint] ↔
      false = true ∨
        ¬ DeliversAfterSigint willing (.start (.init (.ofTrace [0]) ⟨100⟩
          "sleep" false)) [.wakeup ⟨100⟩ stoppedBySigstop, .sigint] :=
  interruptible_iff willing (.ofTrace [0]) ⟨by decide, by decide⟩ "sleep" false
    _

/-- The `SIGSTOP` sent by the signal handler is answered by setting options
and continuing the process. -/
theorem sigstop_not_detached :
    (callsOf willing ((ControllerRun.start (.init (.ofTrace [0]) ⟨100⟩ "sleep"
        false)).after willing [.sigint]) (.wakeup ⟨100⟩ stoppedBySigstop) =
      [⟨.setOptions ProcessController.traceOptions, ⟨100⟩⟩,
        ⟨.cont 0, ⟨100⟩⟩]) ∧
    ¬ Interruptible willing false (.start (.init (.ofTrace [0]) ⟨100⟩ "sleep"
        false)) [.sigint, .wakeup ⟨100⟩ stoppedBySigstop] := by
  refine ⟨by decide, fun interruptible => ?_⟩
  obtain ⟨⟨data, calls⟩, _⟩ := interruptible.detached rfl [.sigint] ⟨100⟩
    stoppedBySigstop List.prefix_rfl rfl (by decide)
    ⟨[], [], rfl, by simp, by simp⟩
  have one := congrArg List.length calls
  rw [List.length_singleton] at one
  exact absurd one (by decide)

end ControllerRun

end Lo2s
