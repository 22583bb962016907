import Lo2s.Foundation.ReorderBuffer
import Mathlib.Data.List.Chain

/-!
# The reorder buffer of the HIP plugin

The runtime delivers records of kernels in batches, sorted only roughly.  Each
batch goes through a priority queue that is popped as soon as it holds a hundred
kernels, and what comes out is handed to the ring buffer unless it starts before
the last kernel handed over has ended.

The order of kernels that start at the same time is the queue's choice; all
results hold for every queue that keeps its promises.
-/

namespace Lo2s

open Foundation

/-- `rocprofiler_buffer_tracing_kernel_dispatch_record_t`, as far as it is
read. -/
structure KernelDispatchRecord where
  kernelId : UInt64
  startTimestamp : UInt64
  endTimestamp : UInt64

/-- `rocprofiler_record_header_t`: the payload is a kernel dispatch if both the
category and the kind of the header say so. -/
inductive RecordHeader where
  | kernelDispatch (record : KernelDispatchRecord)
  | other

structure KernelCache where
  kernelId : UInt64
  startTimestamp : UInt64
  endTimestamp : UInt64
  deriving DecidableEq

namespace KernelCache

/-- `operator<`, by which the greatest kernel is the one that starts first. -/
def lt (lhs rhs : KernelCache) : Bool :=
  lhs.startTimestamp > rhs.startTimestamp

def startTime (kernel : KernelCache) : Nat := kernel.startTimestamp.toNat

/-- The order of the reorder buffer: no other kernel is greater. -/
def Early (first other : KernelCache) : Prop :=
  first.startTime ≤ other.startTime

theorem early_iff (first other : KernelCache) :
    Early first other ↔ first.lt other = false := by
  simp only [Early, startTime, lt, decide_eq_false_iff_not, gt_iff_lt,
    UInt64.lt_iff_toNat_lt, not_lt]

instance : DecidableRel Early := fun first other =>
  inferInstanceAs (Decidable (first.startTime ≤ other.startTime))

instance : Std.Total Early where
  total first other := Nat.le_total first.startTime other.startTime

instance : IsTrans KernelCache Early where
  trans _ _ _ := Nat.le_trans

/-- What is put into the buffer for a record: `offset` is subtracted as an
unsigned number. -/
def ofRecord (offset : Int64) (record : KernelDispatchRecord) : KernelCache :=
  { kernelId := record.kernelId
    startTimestamp := record.startTimestamp - offset.toUInt64
    endTimestamp := record.endTimestamp - offset.toUInt64 }

end KernelCache

/-- The state of the plugin that the callback works on: `last_timestamp`, the
calls of `RingbufWriter::kernel` and the kernels reported late. -/
structure HipTool where
  lastTimestamp : UInt64
  handed : List KernelCache
  late : List KernelCache
  deriving DecidableEq

namespace HipTool

def init : HipTool := ⟨0, [], []⟩

/-- What happens to a kernel taken from the buffer. -/
def handOver (s : HipTool) (ev : KernelCache) : HipTool :=
  if ev.startTimestamp ≥ s.lastTimestamp then
    { s with handed := s.handed ++ [ev], lastTimestamp := ev.endTimestamp }
  else { s with late := s.late ++ [ev] }

section

variable {Q : Type v} (queue : QueueLaws KernelCache.Early Q) (offset : Int64)

/-- The loop over the headers. -/
def headerLoop : List RecordHeader → Q → HipTool → Q × HipTool
  | [], reorderBuffer, s => (reorderBuffer, s)
  | .other :: headers, reorderBuffer, s => headerLoop headers reorderBuffer s
  | .kernelDispatch record :: headers, reorderBuffer, s =>
      let reorderBuffer := queue.push (.ofRecord offset record) reorderBuffer
      if 100 ≤ queue.size reorderBuffer then
        match queue.pop? reorderBuffer with
        | none => headerLoop headers reorderBuffer s
        | some (ev, reorderBuffer) =>
            headerLoop headers reorderBuffer (s.handOver ev)
      else headerLoop headers reorderBuffer s

/-- The loop that empties the buffer, with the number of its kernels. -/
def emptyLoop : Nat → Q → HipTool → HipTool
  | 0, _, s => s
  | n + 1, reorderBuffer, s =>
      match queue.pop? reorderBuffer with
      | none => s
      | some (ev, reorderBuffer) =>
          emptyLoop n reorderBuffer (s.handOver ev)

def toolTracingCallback (headers : List RecordHeader) (s : HipTool) : HipTool :=
  let r := headerLoop queue offset headers queue.empty s
  emptyLoop queue (queue.size r.1) r.1 r.2

/-- The callbacks of a whole run, first to last. -/
def run (batches : List (List RecordHeader)) : HipTool :=
  batches.foldl (fun s headers => toolTracingCallback queue offset headers s)
    init

end

/-- The kernels of a batch, in the order of their records. -/
def kernels (offset : Int64) (headers : List RecordHeader) :
    List KernelCache :=
  headers.filterMap fun
    | .kernelDispatch record => some (.ofRecord offset record)
    | .other => none

section

variable {Q : Type v} (queue : QueueLaws KernelCache.Early Q) (offset : Int64)

theorem headerLoop_eq (headers : List RecordHeader) (reorderBuffer : Q)
    (s : HipTool) :
    headerLoop queue offset headers reorderBuffer s =
      ((queue.feed 100 (kernels offset headers) reorderBuffer).2,
        (queue.feed 100 (kernels offset headers) reorderBuffer).1.foldl
          handOver s) := by
  induction headers generalizing reorderBuffer s with
  | nil => rfl
  | cons header headers induction =>
      cases header with
      | other => exact induction reorderBuffer s
      | kernelDispatch record =>
          change headerLoop queue offset (.kernelDispatch record :: headers)
              reorderBuffer s =
            ((queue.feed 100 (.ofRecord offset record ::
                kernels offset headers) reorderBuffer).2,
              (queue.feed 100 (.ofRecord offset record ::
                kernels offset headers) reorderBuffer).1.foldl handOver s)
          rw [headerLoop, QueueLaws.feed]
          split
          · split
            · simp only [*]
            · rename_i popped
              simp only [popped, induction, List.foldl_cons]
          · simp only [*]

theorem emptyLoop_eq (n : Nat) (reorderBuffer : Q) (s : HipTool) :
    emptyLoop queue n reorderBuffer s =
      (queue.drain n reorderBuffer).foldl handOver s := by
  induction n generalizing reorderBuffer s with
  | zero => rfl
  | succ n induction =>
      rw [emptyLoop, QueueLaws.drain]
      cases popped : queue.pop? reorderBuffer with
      | none => rfl
      | some taken => simp only [induction, List.foldl_cons]

/-- A batch is handed over in the order in which it leaves the buffer. -/
theorem toolTracingCallback_eq (headers : List RecordHeader) (s : HipTool) :
    toolTracingCallback queue offset headers s =
      (queue.reorder 100 (kernels offset headers)).foldl handOver s := by
  rw [toolTracingCallback, headerLoop_eq, emptyLoop_eq, QueueLaws.reorder,
    List.foldl_append]

end

def Before (first second : KernelCache) : Prop :=
  first.endTimestamp ≤ second.startTimestamp

instance : DecidableRel Before := fun first second =>
  inferInstanceAs (Decidable (first.endTimestamp ≤ second.startTimestamp))

/-- The stream handed over so far, and the end of its last kernel. -/
structure Ordered (s : HipTool) : Prop where
  chain : s.handed.IsChain Before
  last : ∀ kernel, s.handed.getLast? = some kernel →
    s.lastTimestamp = kernel.endTimestamp

theorem Ordered.handOver {s : HipTool} (ordered : Ordered s)
    (ev : KernelCache) : Ordered (s.handOver ev) := by
  unfold HipTool.handOver
  split
  · rename_i inTime
    refine ⟨?_, ?_⟩
    · apply ordered.chain.append (.singleton ev)
      intro previous isLast next isNext
      rw [Option.mem_def] at isLast isNext
      cases isNext
      rw [Before, ← ordered.last previous isLast]
      exact inTime
    · intro kernel isLast
      rw [List.getLast?_concat] at isLast
      cases isLast
      rfl
  · exact ⟨ordered.chain, ordered.last⟩

theorem Ordered.foldl {s : HipTool} (ordered : Ordered s)
    (evs : List KernelCache) : Ordered (evs.foldl HipTool.handOver s) := by
  induction evs generalizing s with
  | nil => exact ordered
  | cons ev evs induction => exact induction (ordered.handOver ev)

theorem foldl_handOver_split (evs : List KernelCache) (s : HipTool) :
    ∃ handed late, (evs.foldl handOver s).handed = s.handed ++ handed ∧
      (evs.foldl handOver s).late = s.late ++ late ∧
      (handed ++ late).Perm evs := by
  induction evs generalizing s with
  | nil =>
      exact ⟨[], [], (List.append_nil _).symm, (List.append_nil _).symm, .nil⟩
  | cons ev evs induction =>
      obtain ⟨handed, late, handedEq, lateEq, perm⟩ := induction (s.handOver ev)
      rw [List.foldl_cons, handedEq, lateEq]
      unfold handOver
      split
      · exact ⟨ev :: handed, late, by simp, rfl, perm.cons ev⟩
      · refine ⟨handed, ev :: late, rfl, by simp, ?_⟩
        exact List.perm_middle.trans (perm.cons ev)

theorem foldl_handOver_of_chain {evs : List KernelCache} {s : HipTool}
    (first : ∀ ev ∈ evs.head?, s.lastTimestamp ≤ ev.startTimestamp)
    (chain : evs.IsChain Before) :
    (evs.foldl handOver s).handed = s.handed ++ evs ∧
      (evs.foldl handOver s).late = s.late := by
  induction evs generalizing s with
  | nil => exact ⟨(List.append_nil _).symm, rfl⟩
  | cons ev evs induction =>
      have inTime : ev.startTimestamp ≥ s.lastTimestamp := first ev rfl
      have step : s.handOver ev = { s with
          handed := s.handed ++ [ev]
          lastTimestamp := ev.endTimestamp } := if_pos inTime
      obtain ⟨next, rest⟩ := List.isChain_cons.mp chain
      obtain ⟨handed, late⟩ := induction (s := { s with
          handed := s.handed ++ [ev]
          lastTimestamp := ev.endTimestamp }) next rest
      rw [List.foldl_cons, step, handed, late, List.append_assoc,
        List.singleton_append]
      exact ⟨rfl, rfl⟩

def Apart (first second : KernelCache) : Prop :=
  Before first second ∨ Before second first

/-- A batch that can be handed over completely: its kernels do not overlap,
none starts before the last end handed over, and no record comes more than 99
places behind its rank by start time. -/
structure AlmostSorted (lastTimestamp : UInt64) (batch : List KernelCache) :
    Prop where
  proper : ∀ kernel ∈ batch, kernel.startTimestamp < kernel.endTimestamp
  apart : batch.Pairwise Apart
  inTime : ∀ kernel ∈ batch, lastTimestamp ≤ kernel.startTimestamp
  window : ∀ position kernel, batch[position]? = some kernel →
    position ≤ QueueLaws.rank KernelCache.startTime batch kernel + 99

theorem before_of_apart {first second : KernelCache}
    (apart : Apart first second)
    (proper : second.startTimestamp < second.endTimestamp)
    (early : KernelCache.Early first second) : Before first second := by
  rcases apart with before | after
  · exact before
  · simp only [Before, KernelCache.Early, KernelCache.startTime,
      UInt64.le_iff_toNat_le, UInt64.lt_iff_toNat_lt] at *
    omega

theorem startTime_lt_of_before {first second : KernelCache}
    (before : Before first second)
    (proper : first.startTimestamp < first.endTimestamp) :
    first.startTime < second.startTime := by
  simp only [Before, KernelCache.startTime, UInt64.le_iff_toNat_le,
    UInt64.lt_iff_toNat_lt] at *
  omega

section

variable {Q : Type v} (queue : QueueLaws KernelCache.Early Q)

/-- Within the window, the buffer brings the kernels one after the other. -/
theorem AlmostSorted.reorder {lastTimestamp : UInt64}
    {batch : List KernelCache} (sorted : AlmostSorted lastTimestamp batch) :
    (queue.reorder 100 batch).Pairwise Before := by
  have perm := queue.reorder_perm 100 batch
  have window : QueueLaws.Window KernelCache.startTime 100 batch :=
    fun position kernel found =>
      Nat.lt_succ_of_le (sorted.window position kernel found)
  have early : (queue.reorder 100 batch).Pairwise KernelCache.Early :=
    QueueLaws.reorder_sorted queue window
  have apart : (queue.reorder 100 batch).Pairwise Apart :=
    (perm.pairwise_iff fun either => Or.symm either).mpr sorted.apart
  apply (early.and apart).imp_of_mem
  intro _ _ _ second both
  exact before_of_apart both.2 (sorted.proper _ (perm.subset second)) both.1

variable (offset : Int64)

theorem run_concat (earlier : List (List RecordHeader))
    (headers : List RecordHeader) :
    run queue offset (earlier ++ [headers]) =
      toolTracingCallback queue offset headers (run queue offset earlier) := by
  rw [run, List.foldl_append]
  rfl

theorem run_ordered (batches : List (List RecordHeader)) :
    Ordered (run queue offset batches) := by
  induction batches using List.reverseRecOn with
  | nil => exact ⟨.nil, fun _ absent => by cases absent⟩
  | append_singleton earlier headers induction =>
      rw [run_concat, toolTracingCallback_eq]
      exact induction.foldl _

/-- The stream of kernels is in order over the whole life of the plugin, each
record of a batch is handed over or reported late once, and a batch that is
almost sorted is handed over completely and in the order of its starts. -/
theorem run_stream (batches : List (List RecordHeader)) :
    (run queue offset batches).handed.IsChain Before ∧
    ∀ earlier headers, earlier ++ [headers] <+: batches →
      ∃ handed late,
        (run queue offset (earlier ++ [headers])).handed =
          (run queue offset earlier).handed ++ handed ∧
        (run queue offset (earlier ++ [headers])).late =
          (run queue offset earlier).late ++ late ∧
        (handed ++ late).Perm (kernels offset headers) ∧
        (AlmostSorted (run queue offset earlier).lastTimestamp
            (kernels offset headers) →
          late = [] ∧ handed.Pairwise fun first second =>
            first.startTime < second.startTime) := by
  refine ⟨(run_ordered queue offset batches).chain,
    fun earlier headers _ => ?_⟩
  rw [run_concat, toolTracingCallback_eq]
  have perm := queue.reorder_perm 100 (kernels offset headers)
  obtain ⟨handed, late, handedEq, lateEq, split⟩ := foldl_handOver_split
    (queue.reorder 100 (kernels offset headers)) (run queue offset earlier)
  refine ⟨handed, late, handedEq, lateEq, split.trans perm, fun sorted => ?_⟩
  have before := sorted.reorder queue
  obtain ⟨allHanded, noneLate⟩ := foldl_handOver_of_chain
    (s := run queue offset earlier)
    (fun ev isHead => sorted.inTime ev
      (perm.subset (List.mem_of_head? isHead))) before.isChain
  rw [allHanded, List.append_cancel_left_eq] at handedEq
  rw [noneLate, List.self_eq_append_right] at lateEq
  refine ⟨lateEq, ?_⟩
  rw [← handedEq]
  exact before.imp_of_mem fun first _ one =>
    startTime_lt_of_before one (sorted.proper _ (perm.subset first))

/-- A hundred and five kernels whose first one comes as the hundredth record,
when the buffer is full. -/
def firstComesHundredth : List RecordHeader :=
  (List.range 105).map fun position =>
    let rank := if position < 99 then position + 1
      else if position = 99 then 0
      else position
    .kernelDispatch ⟨0, .ofNat (10 * rank + 10), .ofNat (10 * rank + 15)⟩

theorem run_stream_firstComesHundredth :
    (run (PriorityQueue.laws : QueueLaws KernelCache.Early _) 0
        [[.kernelDispatch ⟨1, 3, 7⟩], firstComesHundredth]).handed.IsChain
      Before ∧
    ∃ handed : List KernelCache,
      (run (PriorityQueue.laws : QueueLaws KernelCache.Early _) 0
          [[.kernelDispatch ⟨1, 3, 7⟩], firstComesHundredth]).handed =
        ⟨1, 3, 7⟩ :: handed ∧
      (run (PriorityQueue.laws : QueueLaws KernelCache.Early _) 0
          [[.kernelDispatch ⟨1, 3, 7⟩], firstComesHundredth]).late = [] ∧
      handed.Perm (kernels 0 firstComesHundredth) ∧
      handed.Pairwise fun first second => first.startTime < second.startTime := by
  obtain ⟨chain, batches⟩ := run_stream
    (PriorityQueue.laws : QueueLaws KernelCache.Early _) 0
    [[.kernelDispatch ⟨1, 3, 7⟩], firstComesHundredth]
  obtain ⟨handed, late, handedEq, lateEq, split, complete⟩ :=
    batches [[.kernelDispatch ⟨1, 3, 7⟩]] firstComesHundredth List.prefix_rfl
  have ranked : ∀ position : Fin (kernels 0 firstComesHundredth).length,
      position.val ≤ QueueLaws.rank KernelCache.startTime
        (kernels 0 firstComesHundredth)
        ((kernels 0 firstComesHundredth).get position) + 99 := by
    decide +kernel
  have sorted : AlmostSorted
      (run (PriorityQueue.laws : QueueLaws KernelCache.Early _) 0
        [[.kernelDispatch ⟨1, 3, 7⟩]]).lastTimestamp
      (kernels 0 firstComesHundredth) := by
    constructor
    · decide +kernel
    · unfold Apart
      decide +kernel
    · decide +kernel
    · intro position kernel found
      obtain ⟨inside, rfl⟩ := List.getElem?_eq_some_iff.mp found
      exact ranked ⟨position, inside⟩
  obtain ⟨rfl, ordered⟩ := complete sorted
  rw [List.append_nil] at split lateEq
  exact ⟨chain, handed, handedEq, lateEq, split, ordered⟩

end

end HipTool

end Lo2s
