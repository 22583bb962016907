import Lo2s.PosixMonitor

/-!
# Pairing of reads and writes

A thread is in one read or write at a time.  The monitor keeps the file of that
operation in `last_fd_`, where -1 says that there is none, so it completes
every operation but those on the file descriptor -1.
-/

namespace Lo2s

open Foundation

/-- The inputs about a thread. -/
def PosixInput.ofThread (thread : Thread) (inputs : List PosixInput) :
    List PosixInput :=
  inputs.filter fun input => input.thread = thread

/-- The events of every thread come after it has been inserted, and among them
each entry to a read or a write is directly followed by its exit. -/
structure PosixInput.Streams (inputs : List PosixInput) : Prop where
  inserted : ∀ earlier event, earlier ++ [.event event] <+: inputs →
    .insertThread event.thread ∈ earlier
  exits : ∀ earlier mode header,
    earlier ++ [.event (.exit mode header)] <+: inputs →
      ∃ event, (ofThread header.thread earlier).getLast? =
        some (.event (.enter mode event))
  enters : ∀ earlier mode event later,
    inputs = earlier ++ .event (.enter mode event) :: later →
      ∃ header, (ofThread event.header.thread later).head? =
        some (.event (.exit mode header))

namespace PosixInput

variable {inputs earlier : List PosixInput} {input : PosixInput}

theorem ofThread_append (thread : Thread) (first second : List PosixInput) :
    ofThread thread (first ++ second) =
      ofThread thread first ++ ofThread thread second :=
  List.filter_append ..

theorem ofThread_cons {thread : Thread} (about : input.thread = thread)
    (inputs : List PosixInput) :
    ofThread thread (input :: inputs) = input :: ofThread thread inputs :=
  List.filter_cons_of_pos (decide_eq_true about)

theorem getLast?_ofThread_concat (thread : Thread) (earlier : List PosixInput)
    (input : PosixInput) :
    (ofThread thread (earlier ++ [input])).getLast? =
      if input.thread = thread then some input
      else (ofThread thread earlier).getLast? := by
  by_cases same : input.thread = thread
  · simp [ofThread, same]
  · simp [ofThread, same]

/-- How an input can follow the last one about the same thread. -/
def Follows : Option PosixInput → PosixInput → Prop
  | none, input => ∃ thread, input = .insertThread thread
  | some (.event (.enter mode _)), input =>
      ∃ header, input = .event (.exit mode header)
  | some _, input => ∀ mode header, input ≠ .event (.exit mode header)

theorem Follows.entered {last : Option PosixInput} {mode : IoOperationMode}
    {header : PosixEventHeader}
    (follows : Follows last (.event (.exit mode header))) :
    ∃ event, last = some (.event (.enter mode event)) := by
  cases last with
  | none =>
      obtain ⟨_, same⟩ := follows
      cases same
  | some last =>
  cases last with
  | insertThread _ => exact absurd rfl (follows mode header)
  | event event =>
  cases event with
  | openFile _ _ => exact absurd rfl (follows mode header)
  | closeFile _ => exact absurd rfl (follows mode header)
  | exit _ _ => exact absurd rfl (follows mode header)
  | enter mode event =>
      obtain ⟨_, same⟩ := follows
      cases same
      exact ⟨event, rfl⟩

theorem split_at_last {thread : Thread} {last : PosixInput}
    (isLast : (ofThread thread earlier).getLast? = some last) :
    last.thread = thread ∧ ∃ before after,
      earlier = before ++ last :: after ∧ ofThread thread after = [] := by
  induction earlier using List.reverseRecOn with
  | nil => cases isLast
  | append_singleton earlier input induction =>
      rw [getLast?_ofThread_concat] at isLast
      split_ifs at isLast with same
      · obtain rfl := Option.some.inj isLast
        exact ⟨same, earlier, [], rfl, rfl⟩
      · obtain ⟨thread, before, after, rfl, none⟩ := induction isLast
        refine ⟨thread, before, after ++ [input], by simp, ?_⟩
        rw [ofThread_append, none]
        simp [ofThread, same]

theorem split_at_next {thread : Thread} {later : List PosixInput}
    {next : PosixInput} (isNext : (ofThread thread later).head? = some next) :
    next.thread = thread ∧ ∃ before after,
      later = before ++ next :: after ∧ ofThread thread before = [] := by
  induction later with
  | nil => cases isNext
  | cons input later induction =>
      by_cases same : input.thread = thread
      · obtain rfl : input = next := by
          simpa [ofThread, same] using isNext
        exact ⟨same, [], later, rfl, rfl⟩
      · obtain ⟨thread, before, after, rfl, none⟩ :=
          induction (by simpa [ofThread, same] using isNext)
        refine ⟨thread, input :: before, after, rfl, ?_⟩
        rw [ofThread, List.filter_cons_of_neg (by simpa using same)]
        exact none

theorem Streams.follows (streams : Streams inputs)
    (within : earlier ++ [input] <+: inputs) :
    Follows (ofThread input.thread earlier).getLast? input := by
  obtain ⟨later, whole⟩ := within
  cases isLast : (ofThread input.thread earlier).getLast? with
  | none =>
      cases input with
      | insertThread thread => exact ⟨thread, rfl⟩
      | event event =>
          have inserted := streams.inserted earlier event ⟨later, whole⟩
          have own : .insertThread event.thread ∈
              ofThread (PosixInput.event event).thread earlier :=
            List.mem_filter.mpr ⟨inserted, by simp [PosixInput.thread]⟩
          rw [List.getLast?_eq_none_iff.mp isLast] at own
          cases own
  | some last =>
      obtain ⟨about, before, after, rfl, none⟩ := split_at_last isLast
      have exits : ∀ mode header, input = .event (.exit mode header) →
          ∃ event, last = .event (.enter mode event) := by
        rintro mode header rfl
        obtain ⟨event, entered⟩ := streams.exits _ mode header ⟨later, whole⟩
        rw [show header.thread =
          (PosixInput.event (.exit mode header)).thread from rfl, isLast]
          at entered
        exact ⟨event, Option.some.inj entered⟩
      have otherwise : (∀ mode event, last ≠ .event (.enter mode event)) →
          ∀ mode header, input ≠ .event (.exit mode header) := by
        intro notEntered mode header same
        obtain ⟨event, entered⟩ := exits mode header same
        exact notEntered mode event entered
      cases last with
      | insertThread _ => exact otherwise (by simp)
      | event event =>
      cases event with
      | openFile _ _ => exact otherwise (by simp)
      | closeFile _ => exact otherwise (by simp)
      | exit _ _ => exact otherwise (by simp)
      | enter mode event =>
          obtain ⟨header, next⟩ := streams.enters before mode event
            (after ++ input :: later) (by simp [← whole])
          refine ⟨header, ?_⟩
          rw [show event.header.thread = input.thread from about,
            ofThread_append, none, List.nil_append, ofThread_cons rfl] at next
          exact Option.some.inj next

end PosixInput

/-- The begin or the end of an operation. -/
def PosixIoEvent.isOperation {η : Type} : PosixIoEvent η → Bool
  | .ioOperationBegin _ _ _ _ _ => true
  | .ioOperationComplete _ _ _ _ => true
  | _ => false

namespace PosixMonitor

variable {ρ η : Type}

/-- The last begin or end of an operation among the events of a thread. -/
def lastOperation (thread : Thread) (written : List (Thread × PosixIoEvent η)) :
    Option (PosixIoEvent η) :=
  ((written.filter fun event =>
    event.1 = thread ∧ event.2.isOperation).getLast?).map Prod.snd

/-- The input is handled.  An entry adds one begin; an exit adds one end, with
the handle and the matching id of the last begin of the thread, which has not
ended; and nothing else adds a begin or an end. -/
def Answered (trace : PosixTrace ρ η) (m : PosixMonitor ρ η)
    (input : PosixInput) : Prop :=
  ∃ final added, m.step trace input = .ok final ∧
    final.written = m.written ++ added ∧
    match input with
    | .event (.enter mode event) =>
        ∃ tp handle bytes, added =
          [(event.header.thread,
            .ioOperationBegin tp handle mode bytes event.buf.toUInt64)]
    | .event (.exit mode header) =>
        ∃ tp handle bytes tp' bytes' matchingId,
          lastOperation header.thread m.written =
            some (.ioOperationBegin tp handle mode bytes matchingId) ∧
          added = [(header.thread,
            .ioOperationComplete tp' handle bytes' matchingId)]
    | _ => ∀ event ∈ added, event.2.isOperation = false

/-- The operation a thread is in, of which the monitor has written the begin. -/
structure InOperation (trace : PosixTrace ρ η) (m : PosixMonitor ρ η)
    (thread : Thread) (mode : IoOperationMode) (event : ReadWriteEvent) :
    Prop where
  lastFd : m.lastFd.lookup thread = some event.header.fd
  lastBuf : m.lastBuf.lookup thread = some event.buf.toUInt64
  known : ⟨event.header.fd, thread⟩ ∈ m.instances
  begun : ∃ tp handle bytes,
    trace.registry.find m.ioHandles
      (m.fileInstance ⟨event.header.fd, thread⟩) = some handle ∧
    lastOperation thread m.written =
      some (.ioOperationBegin tp handle mode bytes event.buf.toUInt64)

/-- What the monitor knows of a thread whose last input is given. -/
def Knows (trace : PosixTrace ρ η) (m : PosixMonitor ρ η) (thread : Thread) :
    Option PosixInput → Prop
  | none => True
  | some (.event (.enter mode event)) => InOperation trace m thread mode event
  | some _ => m.lastFd.lookup thread = some (-1)

section

variable {trace : PosixTrace ρ η} {m final : PosixMonitor ρ η}
  {thread : Thread} {input : PosixInput}

theorem lastOperation_append_of_ne {written added : List (Thread × PosixIoEvent η)}
    (apart : ∀ event ∈ added, event.1 ≠ thread) :
    lastOperation thread (written ++ added) = lastOperation thread written := by
  have none : added.filter (fun event =>
      event.1 = thread ∧ event.2.isOperation) = [] := by
    apply List.filter_eq_nil_iff.mpr
    intro event inside
    simp [apart event inside]
  rw [lastOperation, List.filter_append, none, List.append_nil, lastOperation]

theorem lastOperation_concat {written : List (Thread × PosixIoEvent η)}
    {event : PosixIoEvent η} (operation : event.isOperation) :
    lastOperation thread (written ++ [(thread, event)]) = some event := by
  simp [lastOperation, operation]

private theorem prepare_of_ne (other : input.thread ≠ thread) :
    (m.prepare input).lastFd.lookup thread = m.lastFd.lookup thread ∧
    (m.prepare input).lastBuf.lookup thread = m.lastBuf.lookup thread ∧
    ∀ fd, (m.prepare input).instances.lookup ⟨fd, thread⟩ =
      m.instances.lookup ⟨fd, thread⟩ := by
  have apart : thread ≠ input.thread := Ne.symm other
  cases input with
  | insertThread inserted =>
      have apart : thread ≠ inserted := apart
      simp [prepare, insertThread, apart]
  | event event =>
  cases event with
  | openFile header filename =>
      have apart : thread ≠ header.thread := apart
      simp [prepare, countOpen, PosixEventHeader.threadFd_eq, apart]
  | closeFile header =>
      have apart : thread ≠ header.thread := apart
      simp [prepare, touch, PosixEventHeader.threadFd_eq,
        FiniteMap.lookup_insertIfNew, apart]
  | enter mode event =>
      have apart : thread ≠ event.header.thread := apart
      simp [prepare, touch, remember, PosixEventHeader.threadFd_eq,
        FiniteMap.lookup_insertIfNew, apart]
  | exit mode header =>
      have apart : thread ≠ header.thread := apart
      simp only [prepare]
      split_ifs
      · simp [touchLastFd, FiniteMap.lookup_insertIfNew, apart]
      · simp [touch, touchLastFd, FiniteMap.lookup_insertIfNew, apart]

/-- What is known of a thread stays known as other threads go on. -/
theorem Knows.of_ne {last : Option PosixInput}
    (knows : Knows trace m thread last) (other : input.thread ≠ thread)
    (stepped : Stepped trace m input final) :
    Knows trace final thread last := by
  obtain ⟨lastFd, lastBuf, instances, extended, added, written, apart⟩ :=
    stepped.spec
  obtain ⟨sameFd, sameBuf, sameInstances⟩ :=
    prepare_of_ne (m := m) other
  have idle : m.lastFd.lookup thread = some (-1) →
      final.lastFd.lookup thread = some (-1) := by
    intro idle
    rw [lastFd, sameFd, idle]
  cases last with
  | none => trivial
  | some last =>
  cases last with
  | insertThread _ => exact idle knows
  | event event =>
  cases event with
  | openFile _ _ => exact idle knows
  | closeFile _ => exact idle knows
  | exit _ _ => exact idle knows
  | enter mode event =>
      obtain ⟨fd, buf, known, tp, handle, bytes, found, begun⟩ := knows
      have sameInstance : final.fileInstance ⟨event.header.fd, thread⟩ =
          m.fileInstance ⟨event.header.fd, thread⟩ := by
        simp [fileInstance, instanceOf, instances, sameInstances]
      refine ⟨by rw [lastFd, sameFd, fd], by rw [lastBuf, sameBuf, buf], ?_,
        tp, handle, bytes, ?_, ?_⟩
      · rw [← AList.lookup_isSome, instances, sameInstances,
          AList.lookup_isSome]
        exact known
      · rw [sameInstance]
        exact extended _ _ found
      · rw [written, lastOperation_append_of_ne, begun]
        intro event inside
        rw [apart event inside]
        exact other

/-- What an exit of a thread has to do with its entry. -/
def ExitsValid (last : Option PosixInput) : PosixInput → Prop
  | .event (.exit _ _) => ∀ mode event,
      last = some (.event (.enter mode event)) → event.header.fd ≠ -1
  | _ => True

/-- A thread is in no operation when it opens or closes a file or enters a read
or a write. -/
private theorem Knows.idle {last : Option PosixInput} {event : PosixEvent}
    (knows : Knows trace m thread last)
    (follows : PosixInput.Follows last (.event event))
    (notExit : ∀ mode header, event ≠ .exit mode header) :
    m.lastFd.lookup thread = some (-1) := by
  cases last with
  | none =>
      obtain ⟨_, same⟩ := follows
      cases same
  | some last =>
  cases last with
  | insertThread _ => exact knows
  | event last =>
  cases last with
  | openFile _ _ => exact knows
  | closeFile _ => exact knows
  | exit _ _ => exact knows
  | enter mode _ =>
      obtain ⟨header, same⟩ := follows
      exact absurd (PosixInput.event.inj same) (notExit mode header)

private theorem entered {mode : IoOperationMode} {event : ReadWriteEvent}
    (succeeded : m.step trace (.event (.enter mode event)) = .ok final)
    (stepped : Stepped trace m (.event (.enter mode event)) final) :
    InOperation trace final event.header.thread mode event ∧
      Answered trace m (.event (.enter mode event)) := by
  obtain ⟨handle, ioHandles, preCreated, found, extended, rfl⟩ := stepped
  have known : event.header.threadFd ∈
      ((m.remember event).touch event.header.threadFd).instances :=
    FiniteMap.mem_insertIfNew.mpr (.inl rfl)
  constructor
  · exact {
      lastFd := AList.lookup_insert _
      lastBuf := AList.lookup_insert _
      known := known
      begun := ⟨trace.timeConverter.convert event.header.time, handle,
        event.count.toUInt64, found, lastOperation_concat rfl⟩ }
  · exact ⟨_, _, succeeded, rfl, _, handle, _, rfl⟩

/-- Exiting an operation ends it, unless it is on the file descriptor -1. -/
private theorem exited {mode : IoOperationMode} {header : PosixEventHeader}
    {event : ReadWriteEvent}
    (inOperation : InOperation trace m header.thread mode event)
    (succeeded : m.step trace (.event (.exit mode header)) = .ok final)
    (stepped : Stepped trace m (.event (.exit mode header)) final) :
    final.lastFd.lookup header.thread = some (-1) ∧
      (Answered trace m (.event (.exit mode header)) ↔
        event.header.fd ≠ -1) := by
  obtain ⟨lastFd, lastBuf, known, tp, handle, bytes, found, begun⟩ := inOperation
  have last : m.lastFdOf header.thread = event.header.fd := by
    rw [lastFdOf, lastFd, Option.getD_some]
  have lastTouched := (lastFdOf_touchLastFd header.thread m).trans last
  unfold Stepped at stepped
  simp only [target?, prepare, last, lastTouched] at stepped
  by_cases invalid : event.header.fd = -1
  · rw [if_pos invalid, if_pos invalid] at stepped
    subst stepped
    constructor
    · simp [touchLastFd, FiniteMap.lookup_insertIfNew, lastFd, invalid]
    · apply iff_of_false _ (not_not_intro invalid)
      rintro ⟨final, added, again, written, _, _, _, _, _, _, _, rfl⟩
      rw [succeeded, Except.ok.injEq] at again
      subst again
      simp [touchLastFd] at written
  · rw [if_neg invalid, if_neg invalid] at stepped
    obtain ⟨ended, ioHandles, preCreated, again, extended, rfl⟩ := stepped
    refine ⟨AList.lookup_insert _, iff_of_true ?_ invalid⟩
    have sameInstance : ((m.touchLastFd header.thread).touch
          ⟨event.header.fd, header.thread⟩).fileInstance
          ⟨event.header.fd, header.thread⟩ =
        m.fileInstance ⟨event.header.fd, header.thread⟩ := by
      simp [fileInstance, instanceOf, touch, touchLastFd,
        FiniteMap.insertIfNew, known]
    -- The handle is the one the begin was written with.
    have same : ended = handle := by
      have before := extended _ _ found
      rw [← sameInstance] at before
      exact Option.some.inj (again.symm.trans before)
    subst same
    have begunBuf : lastOperation header.thread m.written =
        some (.ioOperationBegin tp ended mode bytes
          ((m.lastBuf.lookup header.thread).getD 0)) := by
      rw [begun, lastBuf]
      rfl
    exact ⟨_, _, succeeded, rfl, tp, ended, bytes, _, _, _, begunBuf, rfl⟩

/-- After an input of a thread that follows the last one of that thread, the
thread is known with it; and the input is answered unless it ends an operation
on the file descriptor -1. -/
theorem Knows.step {last : Option PosixInput}
    (knows : Knows trace m input.thread last)
    (follows : PosixInput.Follows last input)
    (succeeded : m.step trace input = .ok final)
    (stepped : Stepped trace m input final) :
    Knows trace final input.thread (some input) ∧
      (Answered trace m input ↔ ExitsValid last input) := by
  cases input with
  | insertThread thread =>
      subst stepped
      refine ⟨by simp [Knows, prepare, insertThread, PosixInput.thread], ?_⟩
      exact iff_of_true ⟨_, [], succeeded, by simp, by simp⟩ trivial
  | event event =>
  cases event with
  | openFile header filename =>
      have idle := knows.idle follows (by simp)
      obtain ⟨handle, ioHandles, preCreated, _, _, rfl⟩ := stepped
      refine ⟨idle, iff_of_true ⟨_, _, succeeded, rfl, ?_⟩ trivial⟩
      simp [PosixIoEvent.isOperation]
  | closeFile header =>
      have idle := knows.idle follows (by simp)
      obtain ⟨handle, ioHandles, preCreated, _, _, rfl⟩ := stepped
      refine ⟨idle, iff_of_true ⟨_, _, succeeded, rfl, ?_⟩ trivial⟩
      simp [PosixIoEvent.isOperation]
  | exit mode header =>
      obtain ⟨event, rfl⟩ := follows.entered
      obtain ⟨idle, answered⟩ := exited knows succeeded stepped
      refine ⟨idle, answered.trans ⟨?_, fun valid => valid mode event rfl⟩⟩
      intro valid mode' event' same
      cases same
      exact valid
  | enter mode event =>
      obtain ⟨inOperation, answered⟩ := entered succeeded stepped
      exact ⟨inOperation, iff_of_true answered trivial⟩

end

section

variable {trace : PosixTrace ρ η} {inputs : List PosixInput}

/-- The last input about a thread that has any has been its insertion or comes
after it. -/
theorem emplaced_of_streams (streams : PosixInput.Streams inputs)
    (emplaced : ∀ thread, .insertThread thread ∈ inputs →
      trace.Emplaced thread)
    {earlier : List PosixInput} {input : PosixInput}
    (within : earlier ++ [input] <+: inputs) :
    trace.Emplaced input.thread := by
  cases input with
  | insertThread thread =>
      exact emplaced thread (within.subset (by simp))
  | event event =>
      have inserted := streams.inserted earlier event within
      exact emplaced event.thread
        (within.subset (List.mem_append_left _ inserted))

theorem knows_along (lawful : trace.registry.Lawful)
    (streams : PosixInput.Streams inputs)
    (emplaced : ∀ thread, .insertThread thread ∈ inputs →
      trace.Emplaced thread) (ioHandles : ρ) :
    Always (step trace) (init ioHandles)
      (fun earlier m => ∀ thread,
        Knows trace m thread (PosixInput.ofThread thread earlier).getLast?)
      inputs := by
  apply keeps_along
  · exact fun _ => trivial
  · intro earlier m input within _ knows
    obtain ⟨final, succeeded⟩ :=
      exists_step (emplaced_of_streams streams emplaced within) m
    have stepped := step_spec lawful succeeded
    refine ⟨final, succeeded, fun thread => ?_⟩
    rw [PosixInput.getLast?_ofThread_concat]
    split_ifs with same
    · subst same
      exact ((knows _).step (streams.follows within) succeeded stepped).1
    · exact (knows thread).of_ne same stepped

/-- An input is answered unless it ends an operation on the file descriptor
-1. -/
theorem answered_iff_exitsValid (lawful : trace.registry.Lawful)
    (streams : PosixInput.Streams inputs)
    (emplaced : ∀ thread, .insertThread thread ∈ inputs →
      trace.Emplaced thread) {ioHandles : ρ}
    {earlier : List PosixInput} {input : PosixInput} {m : PosixMonitor ρ η}
    (within : earlier ++ [input] <+: inputs)
    (reached : run (step trace) (init ioHandles) earlier = .ok m) :
    Answered trace m input ↔
      ExitsValid (PosixInput.ofThread input.thread earlier).getLast? input := by
  obtain ⟨same, sameReached, knows⟩ :=
    knows_along lawful streams emplaced ioHandles earlier
      ((List.prefix_append _ _).trans within)
  rw [reached, Except.ok.injEq] at sameReached
  subst sameReached
  obtain ⟨final, succeeded⟩ :=
    exists_step (emplaced_of_streams streams emplaced within) m
  exact ((knows input.thread).step (streams.follows within) succeeded
    (step_spec lawful succeeded)).2

/-- Every read or write that is entered is begun, and completed as it is
exited, exactly when none is entered with the file descriptor -1. -/
theorem answered_iff (lawful : trace.registry.Lawful)
    (streams : PosixInput.Streams inputs)
    (emplaced : ∀ thread, .insertThread thread ∈ inputs →
      trace.Emplaced thread) (ioHandles : ρ) :
    EveryStep (step trace) (init ioHandles) (Answered trace) inputs ↔
      ∀ mode event, .event (.enter mode event) ∈ inputs →
        event.header.fd ≠ -1 := by
  constructor
  · intro allAnswered mode event inside
    obtain ⟨earlier, later, rfl⟩ := List.append_of_mem inside
    obtain ⟨header, next⟩ := streams.enters earlier mode event later rfl
    obtain ⟨about, before, after, rfl, none⟩ := PosixInput.split_at_next next
    have within : (earlier ++ .event (.enter mode event) :: before) ++
        [.event (.exit mode header)] <+:
          earlier ++ .event (.enter mode event) :: (before ++
            .event (.exit mode header) :: after) :=
      ⟨after, by simp⟩
    have isLast : (PosixInput.ofThread event.header.thread
        (earlier ++ .event (.enter mode event) :: before)).getLast? =
          some (.event (.enter mode event)) := by
      have entered : (PosixInput.event (.enter mode event)).thread =
          event.header.thread := rfl
      rw [PosixInput.ofThread_append, PosixInput.ofThread_cons entered, none,
        List.getLast?_concat]
    obtain ⟨m, reached, _⟩ := knows_along lawful streams emplaced ioHandles _
      ((List.prefix_append _ _).trans within)
    rw [← about] at isLast
    exact (answered_iff_exitsValid lawful streams emplaced within reached).mp
      (allAnswered _ _ within m reached) mode event isLast
  · intro valid earlier input within m reached
    rw [answered_iff_exitsValid lawful streams emplaced within reached]
    cases input with
    | insertThread thread => trivial
    | event event =>
    cases event with
    | openFile _ _ => trivial
    | closeFile _ => trivial
    | enter _ _ => trivial
    | exit mode header =>
        intro mode' event isLast
        obtain ⟨_, before, after, rfl, _⟩ := PosixInput.split_at_last isLast
        exact valid mode' event (within.subset (by simp))

end

/-- The trace after process 10 has been emplaced. -/
def shellTrace : PosixTrace (FiniteMap ThreadFdInstance IoHandleDefinition)
    (ThreadFdInstance × IoHandleDefinition) where
  registry := .ofMap ThreadFdInstance IoHandleDefinition
  has := TraceLibrary.ofTables.has (TraceLibrary.ofTables.createProcess
    .noParent ⟨10⟩ "sh" .empty).definitions
  groups := (ExecutionScopeGroup.ofTrace []).addProcess ⟨10⟩
  timeConverter := ⟨0⟩

theorem shellTrace_emplaced : shellTrace.Emplaced ⟨10⟩ :=
  ⟨⟨10⟩, by decide, by decide, by decide⟩

/-- A read of 64 bytes. -/
def readOf (fd : Int32) : List PosixInput :=
  [.insertThread ⟨10⟩, .event (.enter .read ⟨⟨5, 10, fd⟩, 4096, 64⟩),
    .event (.exit .read ⟨9, 10, 0⟩)]

theorem readOf_streams (fd : Int32) : PosixInput.Streams (readOf fd) where
  inserted earlier event within := by
    have throughout : Throughout (fun earlier input => ∀ event,
        input = .event event → .insertThread event.thread ∈ earlier)
        (readOf fd) := by
      simp [readOf, Throughout.cons_iff, PosixEvent.thread, PosixEvent.header,
        PosixEventHeader.thread, Thread.ofPid]
    exact throughout earlier (.event event) within event rfl
  exits earlier mode header within := by
    have throughout : Throughout (fun earlier input => ∀ mode header,
        input = .event (.exit mode header) →
          ∃ event, (PosixInput.ofThread header.thread earlier).getLast? =
            some (.event (.enter mode event))) (readOf fd) := by
      simp only [readOf, Throughout.cons_iff, Throughout.nil, reduceCtorEq,
        PosixInput.event.injEq, PosixEvent.exit.injEq, false_implies,
        implies_true, and_true, true_and]
      rintro _ _ ⟨rfl, rfl⟩
      exact ⟨_, rfl⟩
    exact throughout earlier (.event (.exit mode header)) within mode header rfl
  enters earlier mode event later whole := by
    rcases earlier with _ | ⟨_, _ | ⟨_, _ | ⟨_, _⟩⟩⟩
    · simp [readOf] at whole
    · simp only [readOf, List.cons_append, List.nil_append, List.cons.injEq,
        PosixInput.event.injEq, PosixEvent.enter.injEq] at whole
      obtain ⟨_, ⟨rfl, rfl⟩, rfl⟩ := whole
      exact ⟨_, rfl⟩
    · simp [readOf] at whole
    · simp [readOf] at whole

/-- The monitor answers a read on the file descriptor 3. -/
theorem answered_iff_read :
    EveryStep (step shellTrace) (init ∅) (Answered shellTrace) (readOf 3) ↔
      ∀ mode event, .event (.enter mode event) ∈ readOf 3 →
        event.header.fd ≠ -1 :=
  answered_iff Registry.ofMap_lawful (readOf_streams 3)
    (by simp [readOf, shellTrace_emplaced]) ∅

/-- A read on the file descriptor -1, which fails with `EBADF`, is begun and
never completed. -/
theorem invalid_read_not_completed :
    PosixInput.Streams (readOf (-1)) ∧ shellTrace.Emplaced ⟨10⟩ ∧
      ¬ EveryStep (step shellTrace) (init ∅) (Answered shellTrace)
        (readOf (-1)) := by
  have streams := readOf_streams (-1)
  have emplaced : ∀ thread, .insertThread thread ∈ readOf (-1) →
      shellTrace.Emplaced thread := by
    simp [readOf, shellTrace_emplaced]
  refine ⟨streams, shellTrace_emplaced, fun answered => ?_⟩
  let enter : PosixInput := .event (.enter .read ⟨⟨5, 10, -1⟩, 4096, 64⟩)
  let exit : PosixInput := .event (.exit .read ⟨9, 10, 0⟩)
  have within : [.insertThread ⟨10⟩, enter] ++ [exit] <+: readOf (-1) :=
    List.prefix_rfl
  obtain ⟨m, reached, _⟩ :=
    knows_along Registry.ofMap_lawful streams emplaced ∅ _
      ((List.prefix_append _ _).trans within)
  exact (answered_iff_exitsValid Registry.ofMap_lawful streams emplaced within
    reached).mp (answered _ _ within m reached) .read _ rfl rfl

end PosixMonitor

end Lo2s
