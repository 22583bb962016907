import Lo2s.GpuMonitor
import Lo2s.LocationCalls
import Lo2s.OpenmpNesting

/-!
# What an accelerator and an OpenMP thread tell

Each of these clients of a local tree is followed by a machine without
references.  The kernels lie within the process, one after the other, and the
regions of a thread on a stack above the process.
-/

namespace Lo2s

open Foundation LocalCctxTree

namespace GpuMonitor

/-- The context of the process, and that of a kernel in it. -/
def processContext (g : GpuMonitor) : EnteredContext :=
  .process g.process g.unwritten

def kernelPath (kernelId : UInt64) (g : GpuMonitor) : List EnteredContext :=
  [g.processContext, .gpuKernel kernelId g.unwritten]

/-- The kernels one after the other, within the process from the begin of the
first one to the end of the last one. -/
def kernelEvents (g : GpuMonitor) :
    Bool → TimePoint → List GpuEvent → List PathEvent
  | true, last, [] => [.leave last [g.processContext]]
  | false, _, [] => []
  | entered, _, .kernel startTp endTp kernelId :: events =>
      (if entered then []
        else [.enter (g.timeConverter.convert startTp) [g.processContext]]) ++
        [.enter (g.timeConverter.convert startTp) (g.kernelPath kernelId),
          .leave (g.timeConverter.convert endTp) (g.kernelPath kernelId)] ++
          g.kernelEvents true (g.timeConverter.convert endTp) events
  | entered, last, .kernelDef _ _ :: events => g.kernelEvents entered last events
  | entered, last, .other :: events => g.kernelEvents entered last events

/-- The same process, clock and storage. -/
structure Like (g next : GpuMonitor) : Prop where
  process : next.process = g.process
  timeConverter : next.timeConverter = g.timeConverter
  unwritten : next.unwritten = g.unwritten

theorem Like.kernelEvents {g next : GpuMonitor} (like : Like g next)
    (entered : Bool) (last : TimePoint) (events : List GpuEvent) :
    next.kernelEvents entered last events = g.kernelEvents entered last events := by
  have context : next.processContext = g.processContext := by
    rw [processContext, processContext, like.process, like.unwritten]
  have path : ∀ kernelId, next.kernelPath kernelId = g.kernelPath kernelId := by
    intro kernelId
    rw [kernelPath, kernelPath, context, like.unwritten]
  induction events generalizing entered last with
  | nil => cases entered <;> simp only [GpuMonitor.kernelEvents, context]
  | cons event events induction =>
      cases event <;>
        simp only [GpuMonitor.kernelEvents, context, path, like.timeConverter,
          induction]

/-- The process has been entered or not. -/
def Plays (g : GpuMonitor) (entered : Bool) (log : List PathEvent) : Prop :=
  g.localCctxTree.Plays ⟨if entered then [g.processContext] else [], log⟩

theorem handleKernel_plays {g : GpuMonitor} {entered : Bool}
    {log : List PathEvent} (plays : g.Plays entered log)
    (startTp endTp kernelId : UInt64) :
    ∃ next added, g.handleKernel startTp endTp kernelId = .ok next ∧
      Like g next ∧ next.lastTp = g.timeConverter.convert endTp ∧
      next.Plays true (log ++ added) ∧
      ∀ last events,
        g.kernelEvents entered last (.kernel startTp endTp kernelId :: events) =
          added ++ g.kernelEvents true (g.timeConverter.convert endTp) events := by
  have definable : ¬ g.processContext.NeedsParent := by
    simp [EnteredContext.NeedsParent, processContext,
      EnteredContext.type_process]
  obtain ⟨inside, called, there⟩ := LocalCctxTree.Plays.enter plays
    (g.timeConverter.convert startTp) definable
    [.gpuKernel kernelId g.unwritten]
  have back := there.leave (g.timeConverter.convert endTp) cctxLevelKernel
  refine ⟨_, _, bind_eq_ok_iff.mpr ⟨inside, called, rfl⟩, ⟨rfl, rfl, rfl⟩, rfl,
    ?_, fun _ _ => by rw [kernelEvents]⟩
  have stays : g.processContext.differs g.processContext = false :=
    EnteredContext.differs_of_type rfl
  have same : ∀ tree lastTp, processContext
      { g with localCctxTree := tree, lastTp := lastTp } = g.processContext :=
    fun _ _ => rfl
  cases entered <;>
    simpa [GpuMonitor.Plays, same, kernelPath, ContextStack.enter,
      ContextStack.enterOne, ContextStack.push, ContextStack.leave,
      ContextStack.toLeave, cctxLevelKernel, stays] using back

theorem handle_plays {g : GpuMonitor} {entered : Bool} {log : List PathEvent}
    (plays : g.Plays entered log) (event : GpuEvent) :
    ∃ next entered' added, g.handle event = .ok next ∧ Like g next ∧
      next.Plays entered' (log ++ added) ∧
      ∀ events, g.kernelEvents entered g.lastTp (event :: events) =
        added ++ g.kernelEvents entered' next.lastTp events := by
  cases event with
  | kernel startTp endTp kernelId =>
      obtain ⟨next, added, handled, like, last, there, tells⟩ :=
        handleKernel_plays plays startTp endTp kernelId
      refine ⟨next, true, added, handled, like, there, fun events => ?_⟩
      rw [last]
      exact tells g.lastTp events
  | kernelDef kernelId function =>
      refine ⟨_, entered, [], rfl, ⟨rfl, rfl, rfl⟩, ?_, fun events => ?_⟩
      · rw [List.append_nil]
        exact plays
      · cases entered <;> rfl
  | other =>
      refine ⟨_, entered, [], rfl, ⟨rfl, rfl, rfl⟩, ?_, fun events => ?_⟩
      · rw [List.append_nil]
        exact plays
      · cases entered <;> rfl

theorem run_plays {g : GpuMonitor} {entered : Bool} {log : List PathEvent}
    (plays : g.Plays entered log) (events : List GpuEvent) :
    ∃ final entered' log', run handle g events = .ok final ∧
      final.Plays entered' log' ∧
      log' ++ final.kernelEvents entered' final.lastTp [] =
        log ++ g.kernelEvents entered g.lastTp events := by
  induction events generalizing g entered log with
  | nil => exact ⟨g, entered, log, rfl, plays, rfl⟩
  | cons event events induction =>
      obtain ⟨next, middle, added, handled, like, there, tells⟩ :=
        handle_plays plays event
      obtain ⟨final, entered', log', ran, ends, same⟩ := induction there
      refine ⟨final, entered', log', ?_, ends, ?_⟩
      · rw [run, handled]
        exact ran
      · rw [tells, ← List.append_assoc, same, like.kernelEvents]

theorem exists_location (process : Process) (timeConverter : Converter)
    (interruptGenerator : Nat) (unwritten : UnwrittenWords)
    (events : List GpuEvent) :
    ∃ final, ∃ location : Location,
      run handle (init process timeConverter interruptGenerator unwritten)
        events = .ok final ∧
      location.tree = final.finalizeThread.localCctxTree ∧
      location.meaning =
        (init process timeConverter interruptGenerator unwritten).kernelEvents
          false 0 events := by
  have plays : (init process timeConverter interruptGenerator unwritten).Plays
      false [] := .init interruptGenerator
  obtain ⟨final, entered, log, ran, ends, same⟩ := run_plays plays events
  obtain ⟨location, closed, meaning⟩ :=
    LocalCctxTree.Plays.close ends final.lastTp
  refine ⟨final, location, ran, closed, meaning.trans ?_⟩
  rw [List.nil_append] at same
  apply Eq.trans _ same
  cases entered <;>
    simp [ContextStack.leave, ContextStack.toLeave, kernelEvents]

end GpuMonitor

/-- An OpenMP thread without references, with the time of its last event. -/
structure OpenmpRegions where
  contexts : ContextStack
  lastTp : TimePoint

namespace OpenmpMonitor

variable {m : OpenmpMonitor} {thread : Option OpenmpThread} {r : OpenmpRegions}

/-- The first event of a thread enters the process. -/
def begun (tp : TimePoint) (s : ContextStack) (m : OpenmpMonitor) :
    ContextStack :=
  if s.stack = [] then s.push tp (.process m.process m.unwritten) else s

/-- The process stays below all regions: an exit without an enter leaves
nothing. -/
def advance (m : OpenmpMonitor) (r : OpenmpRegions) :
    OmptEvent → OpenmpRegions
  | .enter tp cctx =>
      let tp := m.timeConverter.convert tp
      ⟨(m.begun tp r.contexts).push tp (.openmp cctx), tp⟩
  | .exit tp _ =>
      let tp := m.timeConverter.convert tp
      let s := m.begun tp r.contexts
      ⟨if s.stack.length ≠ 1 then s.leave tp s.stack.length else s, tp⟩
  | .other => r

/-- Everything is left at the time of the last event. -/
def regions (m : OpenmpMonitor) (events : List OmptEvent) : List PathEvent :=
  let r := events.foldl m.advance ⟨.init, 0⟩
  (r.contexts.leave r.lastTp 1).log

inductive Plays : Option OpenmpThread → OpenmpRegions → Prop where
  | unknown : Plays none ⟨.init, 0⟩
  | known {thread : OpenmpThread} {s : ContextStack} :
      thread.tree.Plays s → s.stack ≠ [] →
      Plays (some thread) ⟨s, thread.lastTp⟩

theorem Plays.begun (plays : Plays thread r) (tp : TimePoint) :
    ∃ tree, m.started tp thread = .ok tree ∧
      tree.Plays (m.begun tp r.contexts) ∧
        (m.begun tp r.contexts).stack ≠ [] := by
  cases plays with
  | unknown =>
      have fresh := LocalCctxTree.Plays.init m.interruptGenerator
      have definable :
          ¬ (EnteredContext.process m.process m.unwritten).NeedsParent := by
        simp [EnteredContext.NeedsParent, EnteredContext.type_process]
      obtain ⟨tree, called, there⟩ := fresh.enter tp definable []
      have same : m.begun tp .init = ContextStack.enter tp 1
          [.process m.process m.unwritten] .init := rfl
      refine ⟨tree, called, ?_⟩
      rw [same]
      exact ⟨there, List.cons_ne_nil _ _⟩
  | known there inside =>
      refine ⟨_, rfl, ?_⟩
      rw [OpenmpMonitor.begun, if_neg inside]
      exact ⟨there, inside⟩

theorem threadHandle_plays (plays : Plays thread r) (event : OmptEvent) :
    ∃ next, m.threadHandle thread event = .ok next ∧
      Plays next (m.advance r event) := by
  cases event with
  | other => exact ⟨thread, rfl, plays⟩
  | enter tp cctx =>
      let tp := m.timeConverter.convert tp
      obtain ⟨tree, started, there, inside⟩ := plays.begun (m := m) tp
      have level := there.curLevel
      have positive := List.length_pos_iff.mpr inside
      have allowed : CctxCall.Allowed tree
          (.enter tp (tree.curLevel + 1) (.openmp cctx) []) :=
        ⟨⟨Nat.succ_pos _, Nat.le_refl _⟩, trivial⟩
      have rooted : CctxCall.Rooted
          (.enter tp (tree.curLevel + 1) (.openmp cctx) []) := by
        intro outermost
        omega
      obtain ⟨entered, called, on⟩ := there.call allowed rooted
      have pushed : (m.begun tp r.contexts).call
          (.enter tp (tree.curLevel + 1) (.openmp cctx) []) =
            (m.begun tp r.contexts).push tp (.openmp cctx) := by
        have free : (m.begun tp r.contexts).stack.reverse[tree.curLevel + 1 - 1]?
            = none := by
          rw [level, List.getElem?_eq_none_iff, List.length_reverse]
          exact Nat.le_refl _
        rw [ContextStack.call, ContextStack.enter, ContextStack.enter,
          ContextStack.enterOne, free]
      rw [pushed] at on
      refine ⟨some ⟨entered, tp⟩, ?_, .known on (List.cons_ne_nil _ _)⟩
      exact bind_eq_ok_iff.mpr
        ⟨tree, started, bind_eq_ok_iff.mpr ⟨entered, called, rfl⟩⟩
  | exit tp cctx =>
      let tp := m.timeConverter.convert tp
      obtain ⟨tree, started, there, inside⟩ := plays.begun (m := m) tp
      have level := there.curLevel
      have positive := List.length_pos_iff.mpr inside
      refine ⟨some ⟨if tree.curLevel ≠ 1 then tree.cctxLeaveTop tp else tree,
        tp⟩, bind_eq_ok_iff.mpr ⟨tree, started, rfl⟩, ?_⟩
      rw [advance, ← level]
      apply Plays.known
      · split_ifs
        · exact there.leave tp tree.curLevel
        · exact there
      · split_ifs with nested
        · have height := ContextStack.leave_length tp
            (level ▸ positive : 0 < tree.curLevel) (m.begun tp r.contexts)
          intro empty
          rw [empty, List.length_nil] at height
          omega
        · exact inside

theorem run_plays (plays : Plays thread r) (events : List OmptEvent) :
    ∃ final, run m.threadHandle thread events = .ok final ∧
      Plays final (events.foldl m.advance r) := by
  induction events generalizing thread r with
  | nil => exact ⟨thread, rfl, plays⟩
  | cons event events induction =>
      obtain ⟨next, handled, there⟩ := threadHandle_plays (m := m) plays event
      obtain ⟨final, ran, ends⟩ := induction there
      exact ⟨final, by rw [run, handled]; exact ran, ends⟩

/-- The location of each thread that has an event, whatever the other threads
do. -/
theorem exists_location (process : Process) (timeConverter : Converter)
    (interruptGenerator : Nat) (unwritten : UnwrittenWords)
    (events : List OmptEvent) :
    ∃ final, run handle (init process timeConverter interruptGenerator unwritten)
        events = .ok final ∧
      ∀ tid, ofThread tid events ≠ [] → ∃ location : Location,
        final.finalizeThread.localCctxTrees.lookup tid = some location.tree ∧
        location.meaning =
          (init process timeConverter interruptGenerator unwritten).regions
            (ofThread tid events) := by
  let m := init process timeConverter interruptGenerator unwritten
  have alone : ∀ tid, ∃ thread, run m.threadHandle (m.thread tid)
      (ofThread tid events) = .ok thread := by
    intro tid
    obtain ⟨thread, ran, _⟩ :=
      run_plays (m := m) Plays.unknown (ofThread tid events)
    exact ⟨thread, ran⟩
  obtain ⟨final, ran, threads⟩ := run_handle alone
  refine ⟨final, ran, fun tid busy => ?_⟩
  obtain ⟨thread, reached, plays⟩ :=
    run_plays (m := m) Plays.unknown (ofThread tid events)
  obtain ⟨same, again, follows⟩ := m.follows_of_run (ofThread tid events)
  cases again.symm.trans reached
  have known : final.thread tid = thread :=
    Except.ok.inj ((threads tid).symm.trans reached)
  rw [finalizeThread_lookup, known]
  rw [regions]
  generalize (ofThread tid events).foldl m.advance ⟨.init, 0⟩ = r at plays
  cases plays with
  | unknown =>
      obtain ⟨event, member⟩ := List.exists_mem_of_ne_nil _ busy
      have belongs : event.thread? = some tid := by
        simpa using (List.mem_filter.mp member).2
      rw [follows event member] at belongs
      cases belongs
  | known there inside =>
      obtain ⟨location, closed, meaning⟩ := there.close _
      exact ⟨location, congrArg some closed.symm, meaning⟩

end OpenmpMonitor

end Lo2s
