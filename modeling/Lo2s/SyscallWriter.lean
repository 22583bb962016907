import Lo2s.LocationCalls

/-!
# The system call writer

`perf::syscall::Writer` turns the samples of the tracepoints `sys_enter` and
`sys_exit` into the events of one location.  A location is in one system call at
a time: what is entered before the exit of a system call is not written.
-/

namespace Lo2s

open Foundation LocalCctxTree

/-- `Reader::RecordSampleType`. -/
structure SyscallSample where
  id : UInt64
  time : UInt64
  syscallNr : Int64
  deriving DecidableEq, Repr

/-- `syscall::Writer`.  `unwritten` fills the words of a calling context that
its constructor does not write. -/
structure SyscallWriter where
  sysEnterId : UInt64
  timeConverter : Converter
  unwritten : UnwrittenWords
  localCctxTree : LocalCctxTree
  lastTp : TimePoint

namespace SyscallWriter

/-- The constructor; `sysEnterId` is that of the event of the reader. -/
def init (sysEnterId : UInt64) (timeConverter : Converter)
    (unwritten : UnwrittenWords) (interruptGenerator : Nat) : SyscallWriter :=
  ⟨sysEnterId, timeConverter, unwritten, .init interruptGenerator, 0⟩

def cctxLevelSyscall : Nat := 1

def isEnter (sample : SyscallSample) (w : SyscallWriter) : Bool :=
  sample.id = w.sysEnterId

def timeOf (sample : SyscallSample) (w : SyscallWriter) : TimePoint :=
  w.timeConverter.convert sample.time

def contextOf (sample : SyscallSample) (w : SyscallWriter) : EnteredContext :=
  .syscall sample.syscallNr.toUInt64 w.unwritten

def handle (w : SyscallWriter) (sample : SyscallSample) :
    Except Failure SyscallWriter := do
  let tp := w.timeOf sample
  let tree ←
    if w.isEnter sample then
      w.localCctxTree.cctxEnter tp cctxLevelSyscall [w.contextOf sample]
    else .ok (w.localCctxTree.cctxLeave tp cctxLevelSyscall)
  return { w with localCctxTree := tree, lastTp := tp }

/-- The destructor. -/
def destroy (w : SyscallWriter) : SyscallWriter :=
  { w with localCctxTree := (w.localCctxTree.cctxLeave w.lastTp 1).finalize }

/-- The system calls in the trace: the first sample of every series of enters
enters one, and the next exit leaves it. -/
def calls (w : SyscallWriter) :
    Option EnteredContext → TimePoint → List SyscallSample → List PathEvent
  | none, _, [] => []
  | some cctx, last, [] => [.leave last [cctx]]
  | none, _, sample :: samples =>
      if w.isEnter sample then
        .enter (w.timeOf sample) [w.contextOf sample] ::
          w.calls (some (w.contextOf sample)) (w.timeOf sample) samples
      else w.calls none (w.timeOf sample) samples
  | some cctx, _, sample :: samples =>
      if w.isEnter sample then
        w.calls (some cctx) (w.timeOf sample) samples
      else
        .leave (w.timeOf sample) [cctx] ::
          w.calls none (w.timeOf sample) samples

/-- The writer is in the system call that the stack is in. -/
structure Plays (w : SyscallWriter) (current : Option EnteredContext)
    (log : List PathEvent) : Prop where
  tree : w.localCctxTree.Plays ⟨current.toList, log⟩
  syscall : ∀ cctx, current = some cctx → cctx.context.type = .syscall

/-- The same clock, tracepoint and storage. -/
structure Like (w next : SyscallWriter) : Prop where
  sysEnterId : next.sysEnterId = w.sysEnterId
  timeConverter : next.timeConverter = w.timeConverter
  unwritten : next.unwritten = w.unwritten

theorem Like.calls {w next : SyscallWriter} (like : Like w next)
    (current : Option EnteredContext) (last : TimePoint)
    (samples : List SyscallSample) :
    next.calls current last samples = w.calls current last samples := by
  have isEnter : ∀ sample, next.isEnter sample = w.isEnter sample := by
    intro sample
    rw [SyscallWriter.isEnter, SyscallWriter.isEnter, like.sysEnterId]
  have timeOf : ∀ sample, next.timeOf sample = w.timeOf sample := by
    intro sample
    rw [SyscallWriter.timeOf, SyscallWriter.timeOf, like.timeConverter]
  have contextOf : ∀ sample, next.contextOf sample = w.contextOf sample := by
    intro sample
    rw [SyscallWriter.contextOf, SyscallWriter.contextOf, like.unwritten]
  induction samples generalizing current last with
  | nil => cases current <;> rfl
  | cons sample samples induction =>
      cases current <;>
        simp only [SyscallWriter.calls, isEnter, timeOf, contextOf, induction]

theorem type_contextOf (sample : SyscallSample) (w : SyscallWriter) :
    (w.contextOf sample).context.type = .syscall := rfl

theorem handle_spec {w : SyscallWriter} {current : Option EnteredContext}
    {log : List PathEvent} (plays : w.Plays current log)
    (sample : SyscallSample) :
    ∃ next current' added, w.handle sample = .ok next ∧ Like w next ∧
      next.lastTp = w.timeOf sample ∧ next.Plays current' (log ++ added) ∧
      ∀ last samples, w.calls current last (sample :: samples) =
        added ++ w.calls current' (w.timeOf sample) samples := by
  have like : ∀ tree, Like w
      { w with localCctxTree := tree, lastTp := w.timeOf sample } :=
    fun _ => ⟨rfl, rfl, rfl⟩
  cases entering : w.isEnter sample with
  | true =>
      have definable : ¬ (w.contextOf sample).NeedsParent := by
        simp [EnteredContext.NeedsParent, type_contextOf]
      obtain ⟨tree, called, there⟩ :=
        plays.tree.enter (w.timeOf sample) definable []
      have handled : w.handle sample =
          .ok { w with localCctxTree := tree, lastTp := w.timeOf sample } := by
        rw [handle, entering, if_pos rfl]
        exact bind_eq_ok_iff.mpr ⟨tree, called, rfl⟩
      cases current with
      | none =>
          refine ⟨_, some (w.contextOf sample),
            [.enter (w.timeOf sample) [w.contextOf sample]], handled, like _,
            rfl, ⟨there, ?_⟩, fun last samples => ?_⟩
          · intro cctx same
            cases same
            exact type_contextOf sample w
          · rw [calls, entering, if_pos rfl, List.singleton_append]
      | some old =>
          have sameType := plays.syscall old rfl
          have stays : old.differs (w.contextOf sample) = false := by
            apply EnteredContext.differs_of_type
            rw [sameType, type_contextOf]
          refine ⟨_, some old, [], handled, like _, rfl,
            ⟨?_, plays.syscall⟩, fun last samples => ?_⟩
          · rw [List.append_nil]
            simpa [ContextStack.call, ContextStack.enter,
              ContextStack.enterOne, stays] using there
          · rw [calls, entering, if_pos rfl, List.nil_append]
  | false =>
      have there := plays.tree.leave (w.timeOf sample) 1
      have handled : w.handle sample = .ok { w with
          localCctxTree := w.localCctxTree.cctxLeave (w.timeOf sample) 1
          lastTp := w.timeOf sample } := by
        rw [handle, entering, if_neg (by simp)]
        rfl
      cases current with
      | none =>
          refine ⟨_, none, [], handled, like _, rfl, ⟨?_, by simp⟩,
            fun last samples => ?_⟩
          · simpa [ContextStack.leave, ContextStack.toLeave] using there
          · rw [calls, entering, if_neg (by simp), List.nil_append]
      | some old =>
          refine ⟨_, none, [.leave (w.timeOf sample) [old]], handled, like _,
            rfl, ⟨?_, by simp⟩, fun last samples => ?_⟩
          · simpa [ContextStack.leave, ContextStack.toLeave] using there
          · rw [calls, entering, if_neg (by simp), List.singleton_append]

theorem run_spec {w : SyscallWriter} {current : Option EnteredContext}
    {log : List PathEvent} (plays : w.Plays current log)
    (samples : List SyscallSample) :
    ∃ final current' log', run handle w samples = .ok final ∧
      final.Plays current' log' ∧
      log' ++ w.calls current' final.lastTp [] =
        log ++ w.calls current w.lastTp samples := by
  induction samples generalizing w current log with
  | nil => exact ⟨w, current, log, rfl, plays, rfl⟩
  | cons sample samples induction =>
      obtain ⟨next, middle, added, handled, like, last, there, calls⟩ :=
        handle_spec plays sample
      obtain ⟨final, current', log', ran, ends, same⟩ := induction there
      refine ⟨final, current', log', ?_, ends, ?_⟩
      · rw [run, handled]
        exact ran
      · rw [like.calls, like.calls] at same
        rw [calls, ← List.append_assoc, ← last]
        exact same

/-- The system calls of a location, in the order of its samples. -/
theorem exists_location (w : SyscallWriter) (fresh : ∃ interruptGenerator,
      w.localCctxTree = .init interruptGenerator)
    (samples : List SyscallSample) :
    ∃ final, ∃ location : Location, run handle w samples = .ok final ∧
      location.tree = final.destroy.localCctxTree ∧
      location.meaning = w.calls none w.lastTp samples := by
  obtain ⟨interruptGenerator, tree⟩ := fresh
  have plays : w.Plays none [] := ⟨tree ▸ .init interruptGenerator, by simp⟩
  obtain ⟨final, current, log, ran, ends, same⟩ := run_spec plays samples
  obtain ⟨location, closed, meaning⟩ := ends.tree.close final.lastTp
  refine ⟨final, location, ran, closed, meaning.trans ?_⟩
  rw [List.nil_append] at same
  rw [← same]
  cases current with
  | none => simp [ContextStack.leave, ContextStack.toLeave, calls]
  | some cctx => simp [ContextStack.leave, ContextStack.toLeave, calls]

/-- The enters among the events. -/
def isEnterEvent : PathEvent → Bool
  | .enter _ _ => true
  | _ => false

/-- No system call is entered right after another one. -/
def Alternates (w : SyscallWriter) (samples : List SyscallSample) : Prop :=
  ∀ earlier first second later,
    samples = earlier ++ first :: second :: later →
      w.isEnter first = true → w.isEnter second = false

theorem alternates_cons_iff {w : SyscallWriter} {sample : SyscallSample}
    {samples : List SyscallSample} :
    w.Alternates (sample :: samples) ↔
      w.Alternates samples ∧ (w.isEnter sample = true → ∀ next,
        samples.head? = some next → w.isEnter next = false) := by
  constructor
  · intro alternates
    constructor
    · intro earlier first second later same
      exact alternates (sample :: earlier) first second later (by rw [same]; rfl)
    · intro entering next head
      obtain ⟨later, rfl⟩ := List.head?_eq_some_iff.mp head
      exact alternates [] sample next later rfl entering
  · intro both earlier first second later same
    obtain ⟨rest, here⟩ := both
    cases earlier with
    | nil =>
        obtain ⟨rfl, rfl⟩ := List.cons.inj same
        exact fun entering => here entering second rfl
    | cons other earlier =>
        exact rest earlier first second later (List.cons.inj same).2

/-- How many samples enter a system call. -/
def entered (w : SyscallWriter) (samples : List SyscallSample) : Nat :=
  samples.countP fun sample => w.isEnter sample

theorem entered_cons (w : SyscallWriter) (sample : SyscallSample)
    (samples : List SyscallSample) :
    w.entered (sample :: samples) =
      w.entered samples + if w.isEnter sample then 1 else 0 :=
  List.countP_cons

/-- How many system calls are entered in the trace. -/
def written (w : SyscallWriter) (current : Option EnteredContext)
    (last : TimePoint) (samples : List SyscallSample) : Nat :=
  (w.calls current last samples).countP isEnterEvent

theorem written_none_cons (w : SyscallWriter) (last : TimePoint)
    (sample : SyscallSample) (samples : List SyscallSample) :
    w.written none last (sample :: samples) =
      if w.isEnter sample then
        w.written (some (w.contextOf sample)) (w.timeOf sample) samples + 1
      else w.written none (w.timeOf sample) samples := by
  rw [written, calls]
  split_ifs
  · exact List.countP_cons_of_pos rfl
  · rfl

theorem written_some_cons (w : SyscallWriter) (cctx : EnteredContext)
    (last : TimePoint) (sample : SyscallSample)
    (samples : List SyscallSample) :
    w.written (some cctx) last (sample :: samples) =
      if w.isEnter sample then w.written (some cctx) (w.timeOf sample) samples
      else w.written none (w.timeOf sample) samples := by
  rw [written, calls]
  split_ifs
  · rfl
  · exact List.countP_cons_of_neg (by simp [isEnterEvent])

theorem written_le (w : SyscallWriter) (current : Option EnteredContext)
    (last : TimePoint) (samples : List SyscallSample) :
    w.written current last samples ≤ w.entered samples := by
  induction samples generalizing current last with
  | nil => cases current <;> exact Nat.le_refl 0
  | cons sample samples induction =>
      have bound := fun current => induction current (w.timeOf sample)
      rw [entered_cons]
      cases current with
      | none =>
          rw [written_none_cons]
          split_ifs
          · exact Nat.succ_le_succ (bound _)
          · exact bound _
      | some cctx =>
          rw [written_some_cons]
          split_ifs
          · exact (bound _).trans (Nat.le_succ _)
          · exact bound _

/-- Every system call that is entered is in the trace, if and only if none of
them comes right after another one, or first while one is current. -/
theorem written_iff (w : SyscallWriter) (current : Option EnteredContext)
    (last : TimePoint) (samples : List SyscallSample) :
    w.written current last samples = w.entered samples ↔
      w.Alternates samples ∧ (current.isSome → ∀ sample,
        samples.head? = some sample → w.isEnter sample = false) := by
  induction samples generalizing current last with
  | nil =>
      refine iff_of_true (by cases current <;> rfl) ⟨?_, by simp⟩
      intro earlier first second later same
      simp at same
  | cons sample samples induction =>
      rw [alternates_cons_iff, entered_cons]
      cases entering : w.isEnter sample with
      | true =>
          cases current with
          | none =>
              rw [written_none_cons, entering, if_pos rfl, if_pos rfl,
                Nat.add_right_cancel_iff, induction]
              simp
          | some cctx =>
              have fewer := w.written_le (some cctx) (w.timeOf sample) samples
              rw [written_some_cons, entering, if_pos rfl, if_pos rfl]
              refine iff_of_false (by omega) fun both => ?_
              have never := both.2 rfl sample rfl
              rw [entering] at never
              cases never
      | false =>
          have silent : w.written current last (sample :: samples) =
              w.written none (w.timeOf sample) samples := by
            cases current with
            | none => rw [written_none_cons, entering, if_neg (by simp)]
            | some cctx => rw [written_some_cons, entering, if_neg (by simp)]
          rw [silent, if_neg (by simp), Nat.add_zero, induction]
          simp [entering]

/-- For any samples, the location is in the system calls that the first enter of
every series of enters and the exit after it give.  No system call is missing
if and only if no enter comes right after another one. -/
theorem systemCalls_written (sysEnterId : UInt64) (timeConverter : Converter)
    (unwritten : UnwrittenWords) (interruptGenerator : Nat)
    (samples : List SyscallSample) :
    let w := init sysEnterId timeConverter unwritten interruptGenerator
    ∃ final, ∃ location : Location, run handle w samples = .ok final ∧
      location.tree = final.destroy.localCctxTree ∧
      location.meaning = w.calls none 0 samples ∧
      (location.meaning.countP isEnterEvent = w.entered samples ↔
        w.Alternates samples) := by
  intro w
  obtain ⟨final, location, ran, closed, meaning⟩ :=
    exists_location w ⟨interruptGenerator, rfl⟩ samples
  refine ⟨final, location, ran, closed, meaning, ?_⟩
  rw [meaning]
  exact (written_iff w none 0 samples).trans (and_iff_left (by simp))

/-- The exit of the first system call has been lost: the second one is not in
the trace, and the first one takes its time. -/
example : (init 1 ⟨0⟩ ⟨0, 0, 0⟩ 0).calls none 0
    [⟨1, 10, 0⟩, ⟨1, 20, 1⟩, ⟨2, 30, 1⟩] =
      [.enter 10 [.syscall 0 ⟨0, 0, 0⟩], .leave 30 [.syscall 0 ⟨0, 0, 0⟩]] := rfl

end SyscallWriter

end Lo2s
