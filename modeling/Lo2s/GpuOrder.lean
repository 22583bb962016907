import Lo2s.CctxEnter
import Lo2s.Foundation.Run
import Lo2s.GpuMonitor

/-!
# The order of the events of a GPU

Between two kernels at most the process is on the stack.  Every kernel is
entered at its start and left at its end, so the times that are written are
those of the kernels as they come, and they are in order only if the kernels
come one after the other.
-/

namespace Lo2s

open Foundation

namespace GpuMonitor

/-- The stack between two events: nothing but the process. -/
structure Ready (t : LocalCctxTree) : Prop where
  invariant : t.Invariant
  level : t.curLevel = 0 ∨ t.curLevel = 1 ∧
    ∃ node old, t.entryAt 1 = some node ∧ node.first = some old ∧
      old.context.type = .process

/-- The timestamps of what has been written. -/
def times (t : LocalCctxTree) : List TimePoint :=
  t.writer.map (·.timestamp)

theorem Ready.init (interruptGenerator : Nat) :
    Ready (.init interruptGenerator) :=
  ⟨.init interruptGenerator, .inl rfl⟩

section

variable {t result : LocalCctxTree}

theorem times_pushed {tp : TimePoint} {cctx : EnteredContext}
    (pushed : LocalCctxTree.Pushed tp cctx t result) :
    times result = times t ++ [tp] := by
  obtain ⟨node, key, _, _, _, writer⟩ := pushed.entered
  rw [times, writer, List.map_append]
  rfl

theorem Ready.process_spec (ready : Ready t) (tp : TimePoint)
    (process : Process) (rest : UnwrittenWords) :
    ∃ result, t.handleEnterCctxNode tp 1 (.process process rest) =
        .ok result ∧ Ready result ∧ result.curLevel = 1 ∧
      times result = times t ++ if t.curLevel = 0 then [tp] else [] := by
  rcases ready.level with outside | ⟨inside, node, old, entry, first, type⟩
  · obtain ⟨result, pushed, spec⟩ :=
      LocalCctxTree.pushCctx_spec ready.invariant tp (.process process rest)
    have length := ready.invariant.cur_length
    obtain ⟨node, key, cur, first, same, _⟩ := spec.entered
    have height : result.curLevel = 1 := by
      rw [LocalCctxTree.curLevel, cur, List.length_cons]
      omega
    refine ⟨result, ?_, ⟨spec.invariant, .inr ⟨height, node, key, ?_, first, ?_⟩⟩,
      height, ?_⟩
    · rw [LocalCctxTree.handleEnter_push tp (by omega), pushed]
    · rw [LocalCctxTree.entryAt, cur, List.reverse_cons,
        List.getElem?_append_right (by rw [List.length_reverse]; omega),
        List.length_reverse, length, outside]
      rfl
    · exact EnteredContext.type_eq_of_equivalent same
    · rw [times_pushed spec, if_pos outside]
  · refine ⟨t, ?_, ready, inside, by simp [inside]⟩
    rw [LocalCctxTree.handleEnter_replace tp Nat.one_pos (by omega)
      (by rw [entry]; exact first), if_neg]
    intro differs
    exact (EnteredContext.differs_iff.mp differs).1 type

theorem Ready.kernel_spec (ready : Ready t) (inside : t.curLevel = 1)
    (startTp endTp : TimePoint) (cctx : EnteredContext) :
    ∃ result, t.handleEnterCctxNode startTp 2 cctx = .ok result ∧
      Ready (result.cctxLeave endTp 2) ∧
      (result.cctxLeave endTp 2).curLevel = 1 ∧
      times (result.cctxLeave endTp 2) = times t ++ [startTp, endTp] := by
  obtain ⟨result, pushed, spec⟩ :=
    LocalCctxTree.pushCctx_spec ready.invariant startTp cctx
  have length := ready.invariant.cur_length
  have height : result.curLevel = 2 := by
    rw [spec.curLevel]
    omega
  have resultLength := spec.invariant.cur_length
  have left : (result.cctxLeave endTp 2).curLevel = 1 := by
    rw [LocalCctxTree.cctxLeave_curLevel endTp Nat.two_pos, height]
    rfl
  obtain ⟨node, key, cur, _⟩ := spec.entered
  refine ⟨result, ?_, ⟨spec.invariant.cctxLeave endTp 2, .inr ⟨left, ?_⟩⟩, left,
    ?_⟩
  · rw [LocalCctxTree.handleEnter_push startTp (by omega), pushed]
  · rw [LocalCctxTree.cctxLeave_entryAt endTp Nat.one_lt_two (by omega),
      spec.entryAt (by omega)]
    exact (ready.level.resolve_left (by omega)).2
  · have one : result.cur.take (result.cur.length - 2) = [node] := by
      rw [resultLength, height, cur]
      rfl
    rw [times, LocalCctxTree.cctxLeave_writer endTp Nat.two_pos, one,
      List.map_append]
    show times result ++ [endTp] = _
    rw [times_pushed spec, List.append_assoc]
    rfl

theorem handleKernel_spec {g : GpuMonitor} (ready : Ready g.localCctxTree)
    (startTp endTp kernelId : UInt64) :
    ∃ tree, g.handleKernel startTp endTp kernelId =
        .ok { g with
          localCctxTree := tree
          lastTp := g.timeConverter.convert endTp } ∧
      Ready tree ∧ tree.curLevel = 1 ∧
      times tree = times g.localCctxTree ++
        (if g.localCctxTree.curLevel = 0 then
          [g.timeConverter.convert startTp] else []) ++
        [g.timeConverter.convert startTp, g.timeConverter.convert endTp] := by
  obtain ⟨middle, entered, inner, inside, before⟩ := ready.process_spec
    (g.timeConverter.convert startTp) g.process g.unwritten
  obtain ⟨result, pushed, after, level, written⟩ := inner.kernel_spec inside
    (g.timeConverter.convert startTp) (g.timeConverter.convert endTp)
    (.gpuKernel kernelId g.unwritten)
  refine ⟨_, ?_, after, level, by rw [written, before]⟩
  simp only [handleKernel, LocalCctxTree.cctxEnter, cctxLevelProcess, entered,
    Nat.reduceAdd, pushed, bind, Except.bind]
  rfl

end

/-- The start and the end of a kernel, as the signed numbers the time converter
is given. -/
structure KernelTimes where
  startTp : Int64
  endTp : Int64

/-- The kernels among some events. -/
def kernels (events : List GpuEvent) : List KernelTimes :=
  events.filterMap fun
    | .kernel startTp endTp _ => some ⟨startTp.toInt64, endTp.toInt64⟩
    | _ => none

/-- No kernel ends before it starts, and each starts after the one before it has
ended. -/
def OneByOne (kernels : List KernelTimes) : Prop :=
  (∀ kernel ∈ kernels, kernel.startTp ≤ kernel.endTp) ∧
    kernels.IsChain fun kernel next => kernel.endTp ≤ next.startTp

/-- The times of some kernels, one after the other. -/
def stamps (converter : Converter) (kernels : List KernelTimes) :
    List TimePoint :=
  kernels.flatMap fun kernel =>
    [kernel.startTp.toInt + converter.offset,
      kernel.endTp.toInt + converter.offset]

theorem oneByOne_cons_cons {kernel next : KernelTimes}
    {kernels : List KernelTimes} :
    OneByOne (kernel :: next :: kernels) ↔
      kernel.startTp ≤ kernel.endTp ∧ kernel.endTp ≤ next.startTp ∧
        OneByOne (next :: kernels) := by
  rw [OneByOne, List.forall_mem_cons, List.isChain_cons_cons, OneByOne]
  constructor
  · rintro ⟨⟨own, later⟩, gap, chain⟩
    exact ⟨own, gap, later, chain⟩
  · rintro ⟨own, gap, later, chain⟩
    exact ⟨⟨own, later⟩, gap, chain⟩

theorem stamps_ordered_iff (converter : Converter)
    (kernels : List KernelTimes) :
    (stamps converter kernels).Pairwise (· ≤ ·) ↔ OneByOne kernels := by
  rw [← List.isChain_iff_pairwise]
  induction kernels with
  | nil => simp [stamps, OneByOne]
  | cons kernel kernels induction =>
      cases kernels with
      | nil => simp [stamps, OneByOne, Int64.le_iff_toInt_le]
      | cons next kernels =>
          have later : stamps converter (next :: kernels) =
              (next.startTp.toInt + converter.offset) ::
                (next.endTp.toInt + converter.offset) ::
                  stamps converter kernels := rfl
          show List.IsChain _ ((kernel.startTp.toInt + converter.offset) ::
            (kernel.endTp.toInt + converter.offset) ::
              stamps converter (next :: kernels)) ↔ _
          rw [later] at induction ⊢
          rw [List.isChain_cons_cons, List.isChain_cons_cons, induction,
            oneByOne_cons_cons, Int64.le_iff_toInt_le, Int64.le_iff_toInt_le,
            Int.add_le_add_iff_right, Int.add_le_add_iff_right]

theorem ordered_cons_self_iff {times : List TimePoint} {tp : TimePoint}
    (first : times.head? = some tp) :
    (tp :: times).Pairwise (· ≤ ·) ↔ times.Pairwise (· ≤ ·) := by
  obtain ⟨later, rfl⟩ := List.head?_eq_some_iff.mp first
  rw [List.pairwise_cons, and_iff_right_iff_imp]
  intro ordered time member
  rcases List.mem_cons.mp member with same | after
  · exact Int.le_of_eq same.symm
  · exact List.rel_of_pairwise_cons ordered after

theorem ordered_concat_self_iff {times : List TimePoint} {tp : TimePoint}
    (last : times.getLast? = some tp) :
    (times ++ [tp]).Pairwise (· ≤ ·) ↔ times.Pairwise (· ≤ ·) := by
  obtain ⟨earlier, rfl⟩ := List.getLast?_eq_some_iff.mp last
  rw [List.pairwise_append, and_iff_left_iff_imp]
  intro ordered
  refine ⟨List.pairwise_singleton .., fun time member other same => ?_⟩
  rw [List.mem_singleton.mp same]
  rcases List.mem_append.mp member with before | same
  · exact (List.pairwise_append.mp ordered).2.2 time before tp (by simp)
  · exact Int.le_of_eq (List.mem_singleton.mp same)

/-- What the monitor has written after some kernels: the process is entered at
the start of the first one. -/
structure Follows (converter : Converter) (kernels : List KernelTimes)
    (g : GpuMonitor) : Prop where
  timeConverter : g.timeConverter = converter
  ready : Ready g.localCctxTree
  level : g.localCctxTree.curLevel = 0 ↔ kernels = []
  times_eq : times g.localCctxTree =
    (stamps converter kernels).head?.toList ++ stamps converter kernels
  lastTp : kernels ≠ [] → (stamps converter kernels).getLast? = some g.lastTp

theorem Follows.kernel {converter : Converter} {kernels : List KernelTimes}
    {g : GpuMonitor} (follows : Follows converter kernels g)
    (startTp endTp kernelId : UInt64) :
    ∃ next, g.handleKernel startTp endTp kernelId = .ok next ∧
      Follows converter (kernels ++ [⟨startTp.toInt64, endTp.toInt64⟩]) next := by
  obtain ⟨tree, handled, ready, level, written⟩ :=
    handleKernel_spec follows.ready startTp endTp kernelId
  have concat : stamps converter
      (kernels ++ [⟨startTp.toInt64, endTp.toInt64⟩]) =
        stamps converter kernels ++
          [converter.convert startTp, converter.convert endTp] := by
    rw [stamps, List.flatMap_append]
    rfl
  refine ⟨_, handled, follows.timeConverter, ready, ?_, ?_, ?_⟩
  · rw [level]
    simp
  · rw [written, follows.times_eq, follows.timeConverter, concat]
    cases kernels with
    | nil => simp [stamps, follows.level.mpr rfl]
    | cons kernel kernels =>
        have inside := mt follows.level.mp (List.cons_ne_nil kernel kernels)
        simp [stamps, inside]
  · intro _
    rw [concat, follows.timeConverter]
    simp

theorem Follows.init (process : Process) (converter : Converter)
    (interruptGenerator : Nat) (unwritten : UnwrittenWords) :
    Follows converter []
      (.init process converter interruptGenerator unwritten) where
  timeConverter := rfl
  ready := .init interruptGenerator
  level := iff_of_true rfl rfl
  times_eq := rfl
  lastTp none := absurd rfl none

theorem Follows.handle {converter : Converter} {events : List GpuEvent}
    {g : GpuMonitor} (follows : Follows converter (kernels events) g)
    (event : GpuEvent) :
    ∃ next, g.handle event = .ok next ∧
      Follows converter (kernels (events ++ [event])) next := by
  have split : kernels (events ++ [event]) =
      kernels events ++ kernels [event] := List.filterMap_append ..
  rw [split]
  cases event with
  | kernel startTp endTp kernelId =>
      exact follows.kernel startTp endTp kernelId
  | kernelDef kernelId function =>
      have none : kernels [.kernelDef kernelId function] = [] := rfl
      rw [none, List.append_nil]
      exact ⟨_, rfl, follows.timeConverter, follows.ready, follows.level,
        follows.times_eq, follows.lastTp⟩
  | other =>
      have none : kernels [.other] = [] := rfl
      rw [none, List.append_nil]
      exact ⟨g, rfl, follows⟩

theorem follows_of_run (process : Process) (converter : Converter)
    (interruptGenerator : Nat) (unwritten : UnwrittenWords)
    (events : List GpuEvent) :
    ∃ g, run GpuMonitor.handle
        (.init process converter interruptGenerator unwritten) events = .ok g ∧
      Follows converter (kernels events) g := by
  induction events using List.reverseRecOn with
  | nil => exact ⟨_, rfl, .init process converter interruptGenerator unwritten⟩
  | append_singleton events event induction =>
      obtain ⟨g, reached, follows⟩ := induction
      rw [run_concat, reached]
      exact follows.handle event

theorem Follows.finalizeThread {converter : Converter}
    {kernels : List KernelTimes} {g : GpuMonitor}
    (follows : Follows converter kernels g) :
    times g.finalizeThread.localCctxTree =
      times g.localCctxTree ++ if kernels = [] then [] else [g.lastTp] := by
  have length := follows.ready.invariant.cur_length
  show times (g.localCctxTree.cctxLeave g.lastTp 1) = _
  rw [times, LocalCctxTree.cctxLeave_writer g.lastTp Nat.one_pos, length,
    List.map_append, Nat.add_sub_cancel]
  by_cases none : kernels = []
  · rw [follows.level.mpr none, if_pos none]
    rfl
  · have inside := follows.ready.level.resolve_left (mt follows.level.mp none)
    obtain ⟨node, below, cur⟩ := List.exists_cons_of_length_pos
      (show 0 < g.localCctxTree.cur.length by omega)
    rw [inside.1, if_neg none, cur]
    rfl

/-- What the monitor writes for some events, up to its end, is in the order of
time if and only if the kernels come one by one. -/
theorem timesOrdered_iff (process : Process) (converter : Converter)
    (interruptGenerator : Nat) (unwritten : UnwrittenWords)
    (events : List GpuEvent) :
    ∃ g, run handle (.init process converter interruptGenerator unwritten)
        events = .ok g ∧
      ((times g.finalizeThread.localCctxTree).Pairwise (· ≤ ·) ↔
        OneByOne (kernels events)) := by
  obtain ⟨g, reached, follows⟩ := follows_of_run process converter
    interruptGenerator unwritten events
  refine ⟨g, reached, ?_⟩
  rw [follows.finalizeThread, follows.times_eq, ← stamps_ordered_iff converter]
  by_cases none : kernels events = []
  · simp [none, stamps]
  · have last := follows.lastTp none
    cases first : (stamps converter (kernels events)).head? with
    | none =>
        rw [List.head?_eq_none_iff.mp first] at last
        cases last
    | some tp =>
        rw [if_neg none, List.append_assoc]
        show (tp :: (_ ++ [_])).Pairwise _ ↔ _
        rw [ordered_cons_self_iff, ordered_concat_self_iff last]
        rw [List.head?_append, first]
        rfl

/-- The second kernel started and ended before the first one. -/
theorem late_kernel_unordered :
    ∃ g, run handle (.init ⟨1⟩ ⟨0⟩ 0 ⟨0, 0, 0⟩)
        [.kernel 10 20 0, .kernel 5 8 1] = .ok g ∧
      times g.finalizeThread.localCctxTree = [10, 10, 20, 5, 8, 8] ∧
      ¬ (times g.finalizeThread.localCctxTree).Pairwise (· ≤ ·) :=
  ⟨_, rfl, rfl, by decide⟩

end GpuMonitor

end Lo2s
