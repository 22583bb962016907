import Lo2s.EventReader
import Lo2s.Foundation.PriorityQueue
import Mathlib.Logic.Function.Basic

/-!
# The merge of the tracepoint buffers

`MultiReader` has one reader for every tracepoint and CPU.  Its `read` takes
their events out in the order of their times and passes them to the writer.
It is modelled over what it uses of a reader, so that it can run on the ring
buffers themselves and on the queues they stand for.
-/

namespace Lo2s

open Foundation

/-- A record that is large enough to have a time, whatever its type. -/
structure TimedRecord extends PerfRecord where
  hasTime : 16 ≤ bytes.length

/-- What the result of `top` points to, with its `time`. -/
structure TracepointSample where
  time : UInt64
  bytes : List UInt8
  deriving DecidableEq, Repr

/-- `header.type`. -/
def TracepointSample.type (sample : TracepointSample) : UInt32 :=
  UInt32.ofNat (ofLittleEndian (sample.bytes.take 4))

/-- A record as `TracepointSampleType`. -/
def TimedRecord.sample (record : TimedRecord) : TracepointSample :=
  ⟨record.field 8, record.bytes⟩

/-- What is done with an `IoReader`, by `MultiReader` and by the kernel. -/
structure PullReader (ρ : Type) where
  empty : ρ → Bool
  top : ρ → Except Failure (TracepointSample × ρ)
  pop : ρ → Except Failure ρ
  append : TimedRecord → ρ → ρ

namespace PullReader

/-- The reader on its ring buffer. -/
def ring : PullReader EventReader where
  empty := EventReader.empty
  top r := do
    let (pointer, r) ← r.get
    let time ← r.loadField pointer 8
    let bytes ← ReadSession.loadRecord pointer r
    return (⟨time, bytes⟩, r)
  pop := EventReader.pop
  append record r :=
    { r with
      data := r.data.write r.size r.dataHead.toNat record.bytes
      dataHead := r.dataHead + UInt64.ofNat record.bytes.length }

/-- The reader as a queue of records. -/
def queue : PullReader (List TracepointSample) where
  empty pending := pending.isEmpty
  top
    | [] => .error .invalidAccess
    | sample :: pending => .ok (sample, sample :: pending)
  pop
    | [] => .error .invalidAccess
    | _ :: pending => .ok pending
  append record pending := pending ++ [record.sample]

end PullReader

/-- `MultiReader::ReaderState`, where `ι` stands for `IoReaderIdentity`. -/
structure ReaderState (ι : Type) where
  time : UInt64
  identity : ι
  deriving DecidableEq, Repr

namespace ReaderState

variable {ι : Type} [LinearOrder ι]

/-- `operator>`. -/
def greater (lhs rhs : ReaderState ι) : Bool :=
  if lhs.time = rhs.time then decide (rhs.identity < lhs.identity)
  else decide (rhs.time < lhs.time)

/-- The order of `earliest_available`, whose comparator is `std::greater`. -/
def Early (lhs rhs : ReaderState ι) : Prop := lhs.greater rhs = false

instance : DecidableRel (Early (ι := ι)) :=
  fun lhs rhs => inferInstanceAs (Decidable (lhs.greater rhs = false))

theorem early_iff {lhs rhs : ReaderState ι} :
    Early lhs rhs ↔ lhs.time < rhs.time ∨
      lhs.time = rhs.time ∧ lhs.identity ≤ rhs.identity := by
  rw [Early, greater]
  split_ifs with same
  · rw [decide_eq_false_iff_not, not_lt, same]
    simp
  · rw [decide_eq_false_iff_not, UInt64.lt_iff_toNat_lt,
      UInt64.lt_iff_toNat_lt]
    rw [← UInt64.toNat_inj] at same ⊢
    omega

theorem Early.time_le {lhs rhs : ReaderState ι} (early : Early lhs rhs) :
    lhs.time ≤ rhs.time := by
  rw [UInt64.le_iff_toNat_le]
  rcases early_iff.mp early with before | ⟨same, _⟩
  · exact Nat.le_of_lt before
  · rw [same]

instance : Std.Total (Early (ι := ι)) where
  total lhs rhs := by
    rw [early_iff, early_iff, UInt64.lt_iff_toNat_lt, UInt64.lt_iff_toNat_lt]
    rcases Nat.lt_trichotomy lhs.time.toNat rhs.time.toNat with
      before | same | after
    · exact .inl (.inl before)
    · rw [UInt64.toNat_inj] at same
      exact (le_total lhs.identity rhs.identity).imp
        (fun least => .inr ⟨same, least⟩) (fun least => .inr ⟨same.symm, least⟩)
    · exact .inr (.inl after)

instance : IsTrans (ReaderState ι) Early where
  trans first second third := by
    rw [early_iff, early_iff, early_iff]
    rintro (before | ⟨same, least⟩) (next | ⟨alike, less⟩)
    · exact .inl (UInt64.lt_trans before next)
    · exact .inl (alike ▸ before)
    · exact .inl (same ▸ next)
    · exact .inr ⟨same.trans alike, least.trans less⟩

end ReaderState

/-- Where `read` is, with its variables. -/
inductive MergePhase (ι : Type) [LinearOrder ι] where
  | idle
  | scanning (rest : List ι)
    (available : PriorityQueue (ReaderState.Early (ι := ι)))
  | merging (available : PriorityQueue (ReaderState.Early (ι := ι)))
  | draining (state : ReaderState ι)
    (available : PriorityQueue (ReaderState.Early (ι := ι)))

/-- An event that has been popped, after it has been written or not. -/
structure TakenSample (ι : Type) where
  identity : ι
  sample : TracepointSample
  written : Bool
  deriving DecidableEq, Repr

/-- `MultiReader`, with the keys of `readers_` in their order, and what has
arrived in the buffers, been compared with other events, and been popped. -/
structure MultiReader (ι : Type) [LinearOrder ι] (ρ : Type) where
  keys : List ι
  distinct : keys.Nodup
  readers : ι → ρ
  highestWritten : UInt64
  phase : MergePhase ι
  arrived : List (ι × TracepointSample)
  compared : List (ι × TracepointSample)
  taken : List (TakenSample ι)

/-- What can happen next: the kernel appends a record, `read` is called, or it
goes on. -/
inductive MergeInput (ι : Type) where
  | arrive (identity : ι) (record : TimedRecord)
  | read
  | advance

namespace MultiReader

variable {ι ρ : Type} [LinearOrder ι]

/-- A new `MultiReader`. -/
def init (keys : List ι) (distinct : keys.Nodup) (readers : ι → ρ) :
    MultiReader ι ρ :=
  ⟨keys, distinct, readers, 0, .idle, [], [], []⟩

/-- A record in the buffer of one of the readers. -/
def arrive (reader : PullReader ρ) (identity : ι) (record : TimedRecord)
    (s : MultiReader ι ρ) : MultiReader ι ρ :=
  { s with
    readers := Function.update s.readers identity
      (reader.append record (s.readers identity))
    arrived := s.arrived ++ [(identity, record.sample)] }

/-- The beginning of `read`, which is called again only after it has
returned. -/
def start (s : MultiReader ι ρ) : MultiReader ι ρ :=
  match s.phase with
  | .idle => { s with phase := .scanning s.keys .empty }
  | _ => s

/-- An iteration of the first loop, for a buffer that is not empty. -/
def scan (reader : PullReader ρ) (identity : ι) (rest : List ι)
    (available : PriorityQueue (ReaderState.Early (ι := ι)))
    (s : MultiReader ι ρ) : Except Failure (MultiReader ι ρ) := do
  let (event, next) ← reader.top (s.readers identity)
  return { s with
    readers := Function.update s.readers identity next
    phase := .scanning rest (available.push ⟨event.time, identity⟩)
    compared := s.compared ++ [(identity, event)] }

/-- The reader is put back for its next event. -/
def pushBack (event : TracepointSample) (state : ReaderState ι)
    (available : PriorityQueue (ReaderState.Early (ι := ι)))
    (s : MultiReader ι ρ) : MultiReader ι ρ :=
  { s with
    phase := .merging (available.push { state with time := event.time }) }

/-- The event is too late, or it is written; both times it is popped. -/
def consume (reader : PullReader ρ) (event : TracepointSample) (identity : ι)
    (s : MultiReader ι ρ) : Except Failure (MultiReader ι ρ) := do
  let next ← reader.pop (s.readers identity)
  let late := decide (event.time < s.highestWritten)
  return { s with
    readers := Function.update s.readers identity next
    highestWritten := if late then s.highestWritten else event.time
    taken := s.taken ++ [⟨identity, event, !late⟩] }

/-- `event->time > earliest_available.top().time` -/
def earlierElsewhere (event : TracepointSample)
    (available : PriorityQueue (ReaderState.Early (ι := ι))) : Bool :=
  match available.top? with
  | none => false
  | some earliest => decide (earliest.time < event.time)

/-- An iteration of the inner loop, for a buffer that is not empty. -/
def drain (reader : PullReader ρ) (state : ReaderState ι)
    (available : PriorityQueue (ReaderState.Early (ι := ι)))
    (s : MultiReader ι ρ) : Except Failure (MultiReader ι ρ) := do
  let (event, next) ← reader.top (s.readers state.identity)
  let s := { s with
    readers := Function.update s.readers state.identity next
    compared := s.compared ++ [(state.identity, event)] }
  if earlierElsewhere event available then
    return s.pushBack event state available
  else s.consume reader event state.identity

/-- The next step of `read`.  The kernel does not change the event a reader has
found, so an iteration of a loop is one step. -/
def advance (reader : PullReader ρ) (s : MultiReader ι ρ) :
    Except Failure (MultiReader ι ρ) :=
  match s.phase with
  | .idle => .ok s
  | .scanning [] available => .ok { s with phase := .merging available }
  | .scanning (identity :: rest) available =>
      if reader.empty (s.readers identity) then
        .ok { s with phase := .scanning rest available }
      else s.scan reader identity rest available
  | .merging available =>
      match available.pop? with
      | none => .ok { s with phase := .idle }
      | some (state, available) =>
          .ok { s with phase := .draining state available }
  | .draining state available =>
      if reader.empty (s.readers state.identity) then
        .ok { s with phase := .merging available }
      else s.drain reader state available

/-- The state after an input. -/
def step (reader : PullReader ρ) (s : MultiReader ι ρ) :
    MergeInput ι → Except Failure (MultiReader ι ρ)
  | .arrive identity record => .ok (s.arrive reader identity record)
  | .read => .ok s.start
  | .advance => s.advance reader

/-- The events passed to `writer_.write`, in this order. -/
def written (s : MultiReader ι ρ) : List (TakenSample ι) :=
  s.taken.filter (·.written)

end MultiReader

end Lo2s
