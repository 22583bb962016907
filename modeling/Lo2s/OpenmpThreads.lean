import Lo2s.OpenmpMonitor

/-!
# Threads of an OpenMP program

The monitor keeps its threads apart: an event changes the tree of its own
thread only, and how it changes it depends on nothing else.  So what becomes of
a thread is read off its own events, whatever events of other threads come
between them.
-/

namespace Lo2s

open Foundation

/-- The thread an event belongs to. -/
def OmptEvent.thread? : OmptEvent → Option UInt64
  | .enter _ cctx => some cctx.tid.toUInt64
  | .exit _ cctx => some cctx.tid.toUInt64
  | .other => none

/-- The events of a thread. -/
def ofThread (tid : UInt64) (events : List OmptEvent) : List OmptEvent :=
  events.filter fun event => event.thread? = some tid

/-- What the monitor keeps of a thread. -/
structure OpenmpThread where
  tree : LocalCctxTree
  lastTp : TimePoint

namespace OpenmpMonitor

variable {m next final : OpenmpMonitor} {tid other : UInt64}

def thread (m : OpenmpMonitor) (tid : UInt64) : Option OpenmpThread :=
  (m.localCctxTrees.lookup tid).map fun tree =>
    ⟨tree, (m.lastTp.lookup tid).getD 0⟩

def withThread (m : OpenmpMonitor) (tid : UInt64) :
    Option OpenmpThread → OpenmpMonitor
  | none => m
  | some thread => m.update thread.lastTp tid thread.tree

/-- The tree of a thread, a new one if it has none. -/
def started (m : OpenmpMonitor) (tp : TimePoint) :
    Option OpenmpThread → Except Failure LocalCctxTree
  | some thread => .ok thread.tree
  | none => (LocalCctxTree.init m.interruptGenerator).cctxEnter tp
      cctxLevelProcess [.process m.process m.unwritten]

/-- What an event does to its thread. -/
def threadHandle (m : OpenmpMonitor) (thread : Option OpenmpThread) :
    OmptEvent → Except Failure (Option OpenmpThread)
  | .enter tp cctx => do
      let tp := m.timeConverter.convert tp
      let tree ← m.started tp thread
      let tree ← tree.cctxEnter tp (tree.curLevel + 1) [.openmp cctx]
      return some ⟨tree, tp⟩
  | .exit tp _ => do
      let tp := m.timeConverter.convert tp
      let tree ← m.started tp thread
      return some
        ⟨if tree.curLevel ≠ cctxLevelProcess then tree.cctxLeaveTop tp
          else tree, tp⟩
  | .other => .ok thread

@[simp] theorem thread_withThread (thread : OpenmpThread) :
    (m.withThread tid (some thread)).thread tid = some thread := by
  simp [withThread, OpenmpMonitor.thread, update]

theorem thread_withThread_ne (different : other ≠ tid)
    (thread : Option OpenmpThread) :
    (m.withThread tid thread).thread other = m.thread other := by
  cases thread with
  | none => rfl
  | some thread =>
      simp [withThread, OpenmpMonitor.thread, update, different]

theorem threadHandle_withThread (thread : Option OpenmpThread) :
    (m.withThread tid thread).threadHandle = m.threadHandle := by
  cases thread <;> rfl

/-- The tree is there or is made; a new one changes nothing else. -/
theorem threadTree_spec (m : OpenmpMonitor) (tp : TimePoint) (tid : UInt64) :
    (∃ failure, m.threadTree tp tid = .error failure ∧
      m.started tp (m.thread tid) = .error failure) ∨
    ∃ tree next, m.threadTree tp tid = .ok (tree, next) ∧
      m.started tp (m.thread tid) = .ok tree ∧
        ∀ changed, next.update tp tid changed = m.update tp tid changed := by
  cases found : m.localCctxTrees.lookup tid with
  | some tree =>
      have known : tid ∈ m.localCctxTrees :=
        FiniteMap.mem_iff_lookup.mpr ⟨tree, found⟩
      have thread : m.thread tid = some ⟨tree, (m.lastTp.lookup tid).getD 0⟩ := by
        rw [OpenmpMonitor.thread, found]
        rfl
      refine .inr ⟨tree, m, ?_, by rw [thread]; rfl, fun _ => rfl⟩
      rw [threadTree, if_pos known]
      simp only [bind, Except.bind, found]
  | none =>
      have unknown : tid ∉ m.localCctxTrees := AList.lookup_eq_none.mp found
      have thread : m.thread tid = none := by
        rw [OpenmpMonitor.thread, found]
        rfl
      rw [thread, threadTree, if_neg unknown, createThreadWriter, started]
      cases (LocalCctxTree.init m.interruptGenerator).cctxEnter tp
        cctxLevelProcess [.process m.process m.unwritten] with
      | error failure => exact .inl ⟨failure, rfl, rfl⟩
      | ok tree =>
          refine .inr ⟨tree, { m with
            localCctxTrees := m.localCctxTrees.insert tid tree }, ?_, rfl, ?_⟩
          · simp only [bind, Except.bind, pure, Except.pure,
              AList.lookup_insert]
          · intro changed
            simp only [update, AList.insert_insert]

/-- The monitor does to a thread what the thread does by itself. -/
theorem handle_eq (m : OpenmpMonitor) {event : OmptEvent}
    (belongs : event.thread? = some tid) :
    m.handle event =
      (m.threadHandle (m.thread tid) event).map (m.withThread tid) := by
  cases event with
  | other => cases belongs
  | enter tp cctx =>
      obtain rfl := Option.some.inj belongs
      simp only [handle, handleEnter, threadHandle]
      rcases threadTree_spec m (m.timeConverter.convert tp) cctx.tid.toUInt64 with
        ⟨failure, monitor, thread⟩ | ⟨tree, next, monitor, thread, same⟩
      · rw [monitor, thread]
        rfl
      · rw [monitor, thread]
        simp only [bind, Except.bind, pure, Except.pure, same]
        cases tree.cctxEnter (m.timeConverter.convert tp) (tree.curLevel + 1)
          [.openmp cctx] <;> rfl
  | exit tp cctx =>
      obtain rfl := Option.some.inj belongs
      simp only [handle, handleExit, threadHandle]
      rcases threadTree_spec m (m.timeConverter.convert tp) cctx.tid.toUInt64 with
        ⟨failure, monitor, thread⟩ | ⟨tree, next, monitor, thread, same⟩
      · rw [monitor, thread]
        rfl
      · rw [monitor, thread]
        simp only [bind, Except.bind, pure, Except.pure, same]
        rfl

theorem threadHandle_some {thread changed : Option OpenmpThread}
    {event : OmptEvent} (belongs : event.thread? = some tid)
    (stepped : m.threadHandle thread event = .ok changed) :
    ∃ reached, changed = some reached := by
  cases event with
  | other => cases belongs
  | enter tp cctx =>
      obtain ⟨tree, _, rest⟩ := bind_eq_ok_iff.mp stepped
      obtain ⟨entered, _, rest⟩ := bind_eq_ok_iff.mp rest
      exact ⟨_, (Except.ok.inj rest).symm⟩
  | exit tp cctx =>
      obtain ⟨tree, _, rest⟩ := bind_eq_ok_iff.mp stepped
      exact ⟨_, (Except.ok.inj rest).symm⟩

/-- The monitor gets through some events as soon as each thread gets through
its own ones, and leaves each thread as it would be without the others. -/
theorem run_handle {m : OpenmpMonitor} {events : List OmptEvent}
    (threads : ∀ tid, ∃ thread,
      run m.threadHandle (m.thread tid) (ofThread tid events) = .ok thread) :
    ∃ final, run handle m events = .ok final ∧
      ∀ tid, run m.threadHandle (m.thread tid) (ofThread tid events) =
        .ok (final.thread tid) := by
  induction events generalizing m with
  | nil => exact ⟨m, rfl, fun tid => rfl⟩
  | cons event events induction =>
      cases belongs : event.thread? with
      | none =>
          have skipped : m.handle event = .ok m := by
            cases event with
            | other => rfl
            | enter _ _ => cases belongs
            | exit _ _ => cases belongs
          have same : ∀ tid, ofThread tid (event :: events) =
              ofThread tid events := by
            intro tid
            simp [ofThread, belongs]
          simp only [same] at threads ⊢
          rw [run, skipped]
          exact induction threads
      | some own =>
          have ownEvents : ofThread own (event :: events) =
              event :: ofThread own events := by
            simp [ofThread, belongs]
          have otherEvents : ∀ tid, tid ≠ own →
              ofThread tid (event :: events) = ofThread tid events := by
            intro tid different
            simp [ofThread, belongs, different.symm]
          obtain ⟨thread, ran⟩ := threads own
          rw [ownEvents, run] at ran
          cases stepped : m.threadHandle (m.thread own) event with
          | error failure =>
              rw [stepped] at ran
              cases ran
          | ok changed =>
              obtain ⟨reached, rfl⟩ := threadHandle_some belongs stepped
              let next := m.withThread own (some reached)
              have step : m.handle event = .ok next := by
                rw [m.handle_eq belongs, stepped]
                rfl
              have handles : next.threadHandle = m.threadHandle :=
                threadHandle_withThread (some reached)
              have others : ∀ tid, tid ≠ own →
                  next.thread tid = m.thread tid := fun tid different =>
                thread_withThread_ne different (some reached)
              have ownThread : next.thread own = some reached :=
                thread_withThread reached
              have later : ∀ tid, ∃ thread, run next.threadHandle
                  (next.thread tid) (ofThread tid events) = .ok thread := by
                intro tid
                rw [handles]
                by_cases isOwn : tid = own
                · rw [isOwn, ownThread]
                  rw [stepped] at ran
                  exact ⟨thread, ran⟩
                · rw [others tid isOwn, ← otherEvents tid isOwn]
                  exact threads tid
              obtain ⟨final, finished, same⟩ := induction later
              refine ⟨final, by rw [run, step]; exact finished, fun tid => ?_⟩
              have after := same tid
              rw [handles] at after
              by_cases isOwn : tid = own
              · rw [isOwn, ownEvents, run, stepped]
                rw [isOwn, ownThread] at after
                exact after
              · rw [otherEvents tid isOwn, ← others tid isOwn]
                exact after

end OpenmpMonitor

end Lo2s
