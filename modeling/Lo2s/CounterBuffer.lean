import Lo2s.Foundation.Increments
import Lo2s.Foundation.Run
import Lo2s.UserspaceCounters
import Mathlib.Algebra.Order.Field.Rat

/-!
# Counter buffers

Counters tell what has happened since the start of the measurement, so a buffer
keeps the reading before the last one and adds up the differences.  A counter
that has run for a part of its time only is scaled up to all of it.
-/

namespace Lo2s

open Foundation

/-- `diff_enabled`, `diff_running` and `diff_value` of a counter. -/
structure CounterDiff where
  enabled : UInt64
  running : UInt64
  value : UInt64

/-- What `update_buffers` makes of an element of `accumulated_`, in exact
arithmetic. -/
def CounterDiff.accumulate (diff : CounterDiff) (accumulated : ℚ) : ℚ :=
  if diff.enabled = 0 ∨ diff.running = 0 ∨ diff.value = 0 then accumulated
  else if diff.enabled = diff.running then accumulated + diff.value.toNat
  else accumulated +
    (diff.enabled.toNat : ℚ) / diff.running.toNat * diff.value.toNat

/-- The loop of `update_buffers`, from an index on. -/
def updateBuffers (diff : Nat → Except Failure CounterDiff) :
    Nat → List ℚ → Except Failure (List ℚ)
  | _, [] => .ok []
  | i, accumulated :: rest =>
      match diff i with
      | .error failure => .error failure
      | .ok diffs =>
          match updateBuffers diff (i + 1) rest with
          | .error failure => .error failure
          | .ok rest => .ok (diffs.accumulate accumulated :: rest)

namespace UserspaceReadFormat

def zero : UserspaceReadFormat := ⟨0, 0, 0⟩

/-- The differences of a counter from an earlier to a later reading. -/
def diff (earlier later : UserspaceReadFormat) : CounterDiff where
  enabled := later.timeEnabled - earlier.timeEnabled
  running := later.timeRunning - earlier.timeRunning
  value := later.value - earlier.value

end UserspaceReadFormat

/-- `GroupReadFormat`, a header that is followed by `nr` values. -/
structure GroupReadFormat where
  nr : Nat
  timeEnabled : UInt64
  timeRunning : UInt64
  values : List UInt64
  counted : values.length = nr

namespace GroupReadFormat

/-- A counter of the group, with the times that it shares with the others. -/
def counter (i : Nat) (reading : GroupReadFormat) : UserspaceReadFormat :=
  ⟨reading.values.getD i 0, reading.timeEnabled, reading.timeRunning⟩

/-- The same reading, one counter at a time. -/
def counters (reading : GroupReadFormat) : List UserspaceReadFormat :=
  (List.range reading.nr).map fun i => reading.counter i

end GroupReadFormat

/-- `GroupCounterBuffer`: `current_` points to one of the two buffers and
`previous_` to the other one. -/
structure GroupCounterBuffer where
  accumulated : List ℚ
  front : GroupReadFormat
  back : GroupReadFormat
  currentIsFront : Bool

namespace GroupCounterBuffer

def current (b : GroupCounterBuffer) : GroupReadFormat :=
  if b.currentIsFront then b.front else b.back

def previous (b : GroupCounterBuffer) : GroupReadFormat :=
  if b.currentIsFront then b.back else b.front

/-- `memcpy` to `current_`. -/
def store (inbuf : GroupReadFormat) (b : GroupCounterBuffer) :
    GroupCounterBuffer :=
  if b.currentIsFront then { b with front := inbuf }
  else { b with back := inbuf }

/-- The constructor. -/
def init (ncounters : Nat) : GroupCounterBuffer :=
  let empty : GroupReadFormat :=
    ⟨ncounters, 0, 0, List.replicate ncounters 0, List.length_replicate⟩
  ⟨List.replicate ncounters 0, empty, empty, true⟩

/-- The three differences. -/
def diff (b : GroupCounterBuffer) (nr : Nat) : Except Failure CounterDiff :=
  if nr < b.current.values.length ∧ nr < b.previous.values.length then
    .ok ((b.previous.counter nr).diff (b.current.counter nr))
  else .error .invalidAccess

def read (b : GroupCounterBuffer) (inbuf : GroupReadFormat) :
    Except Failure GroupCounterBuffer :=
  if b.accumulated.length ≠ inbuf.nr then
    .error (.assertion "accumulated_.size() == inbuf->nr")
  else if b.current.nr ≠ b.previous.nr then
    .error (.assertion "current_->nr == previous_->nr")
  else
    let b := b.store inbuf
    match updateBuffers b.diff 0 b.accumulated with
    | .error failure => .error failure
    | .ok accumulated => .ok { b with
        accumulated := accumulated
        currentIsFront := !b.currentIsFront }

/-- `enabled` and `running`. -/
def enabled (b : GroupCounterBuffer) : UInt64 := b.previous.timeEnabled
def running (b : GroupCounterBuffer) : UInt64 := b.previous.timeRunning

end GroupCounterBuffer

structure UserspaceCounterBuffer where
  accumulated : List ℚ
  current : List UserspaceReadFormat
  previous : List UserspaceReadFormat

namespace UserspaceCounterBuffer

/-- The constructor. -/
def init (ncounters : Nat) : UserspaceCounterBuffer where
  accumulated := List.replicate ncounters 0
  current := List.replicate ncounters .zero
  previous := List.replicate ncounters .zero

/-- The three differences. -/
def diff (b : UserspaceCounterBuffer) (nr : Nat) :
    Except Failure CounterDiff :=
  match b.current[nr]?, b.previous[nr]? with
  | some current, some previous => .ok (previous.diff current)
  | _, _ => .error .invalidAccess

def read (b : UserspaceCounterBuffer) (inbuf : List UserspaceReadFormat) :
    Except Failure UserspaceCounterBuffer :=
  let b := { b with current := inbuf }
  match updateBuffers b.diff 0 b.accumulated with
  | .error failure => .error failure
  | .ok accumulated => .ok ⟨accumulated, b.previous, b.current⟩

end UserspaceCounterBuffer

namespace UserspaceReadFormat

/-- A counter and its times do not decrease. -/
structure Follows (earlier later : UserspaceReadFormat) : Prop where
  value : earlier.value ≤ later.value
  timeEnabled : earlier.timeEnabled ≤ later.timeEnabled
  timeRunning : earlier.timeRunning ≤ later.timeRunning

instance (earlier later : UserspaceReadFormat) :
    Decidable (Follows earlier later) :=
  decidable_of_iff (earlier.value ≤ later.value ∧
      earlier.timeEnabled ≤ later.timeEnabled ∧
      earlier.timeRunning ≤ later.timeRunning)
    ⟨fun ⟨value, enabled, running⟩ => ⟨value, enabled, running⟩,
      fun ⟨value, enabled, running⟩ => ⟨value, enabled, running⟩⟩

/-- The difference of the values, scaled by how long the counter could have run
to how long it has. -/
def scaledDifference (earlier later : UserspaceReadFormat) : ℚ :=
  let enabled : ℚ := later.timeEnabled.toNat - earlier.timeEnabled.toNat
  let running : ℚ := later.timeRunning.toNat - earlier.timeRunning.toNat
  let value : ℚ := later.value.toNat - earlier.value.toNat
  if enabled = 0 ∨ running = 0 ∨ value = 0 then 0
  else enabled / running * value

end UserspaceReadFormat

open UserspaceReadFormat

theorem toNat_sub_cast {earlier later : UInt64} (ordered : earlier ≤ later) :
    ((later - earlier).toNat : ℚ) = later.toNat - earlier.toNat := by
  rw [UInt64.toNat_sub_of_le _ _ ordered]
  exact Nat.cast_sub (UInt64.le_iff_toNat_le.mp ordered)

theorem toNat_sub_nonneg {earlier later : UInt64} (ordered : earlier ≤ later) :
    (0 : ℚ) ≤ later.toNat - earlier.toNat := by
  rw [← toNat_sub_cast ordered]
  exact Nat.cast_nonneg _

theorem sub_eq_zero_iff_cast {earlier later : UInt64}
    (ordered : earlier ≤ later) :
    later - earlier = 0 ↔ (later.toNat : ℚ) - earlier.toNat = 0 := by
  rw [← toNat_sub_cast ordered, Nat.cast_eq_zero, ← UInt64.toNat_inj]
  exact Iff.rfl

/-- The case of equal times is the general one with the factor 1. -/
theorem accumulate_diff {earlier later : UserspaceReadFormat}
    (follows : Follows earlier later) (accumulated : ℚ) :
    (earlier.diff later).accumulate accumulated =
      accumulated + scaledDifference earlier later := by
  simp only [CounterDiff.accumulate, UserspaceReadFormat.diff, scaledDifference,
    sub_eq_zero_iff_cast follows.timeEnabled,
    sub_eq_zero_iff_cast follows.timeRunning,
    sub_eq_zero_iff_cast follows.value, toNat_sub_cast follows.timeEnabled,
    toNat_sub_cast follows.timeRunning, toNat_sub_cast follows.value]
  split_ifs with idle same
  · exact (add_zero _).symm
  · have factor : ((later.timeEnabled.toNat : ℚ) - earlier.timeEnabled.toNat) /
        (later.timeRunning.toNat - earlier.timeRunning.toNat) = 1 := by
      have times := congrArg (fun time : UInt64 => (time.toNat : ℚ)) same
      simp only [toNat_sub_cast follows.timeEnabled,
        toNat_sub_cast follows.timeRunning] at times
      rw [times]
      exact div_self fun zero => idle (.inr (.inl zero))
    rw [factor, one_mul]
  · rfl

theorem scaledDifference_nonneg {earlier later : UserspaceReadFormat}
    (follows : Follows earlier later) : 0 ≤ scaledDifference earlier later := by
  rw [scaledDifference]
  split_ifs
  · exact le_rfl
  · exact mul_nonneg
      (div_nonneg (toNat_sub_nonneg follows.timeEnabled)
        (toNat_sub_nonneg follows.timeRunning))
      (toNat_sub_nonneg follows.value)

/-- Where a counter has run all the time, only what it has counted in no time
is missing. -/
theorem scaledDifference_of_running {earlier later : UserspaceReadFormat}
    (before : earlier.timeEnabled = earlier.timeRunning)
    (after : later.timeEnabled = later.timeRunning) :
    scaledDifference earlier later =
      if later.timeEnabled = earlier.timeEnabled then 0
      else (later.value.toNat : ℚ) - earlier.value.toNat := by
  have still : (later.timeRunning.toNat : ℚ) - earlier.timeRunning.toNat = 0 ↔
      later.timeRunning = earlier.timeRunning := by
    rw [sub_eq_zero, Nat.cast_inj, UInt64.toNat_inj]
  rw [scaledDifference, before, after]
  simp only [still]
  split_ifs with idle same same
  · rfl
  · rcases idle with still | still | none
    · exact absurd still same
    · exact absurd still same
    · exact none.symm
  · exact absurd (.inl same) idle
  · rw [div_self fun zero => same (still.mp zero), one_mul]

/-- The counters of a buffer after readings of each of them. -/
def totals (ncounters : Nat) (columns : Nat → List UserspaceReadFormat) :
    List ℚ :=
  (List.range ncounters).map fun i =>
    increments scaledDifference .zero (columns i)

section

variable {ncounters : Nat} {columns : Nat → List UserspaceReadFormat}
  {reading : Nat → UserspaceReadFormat}

theorem updateBuffers_map {diff : Nat → Except Failure CounterDiff}
    {diffs : Nat → CounterDiff} {accumulated : Nat → ℚ} (start count : Nat)
    (told : ∀ i ∈ List.range' start count, diff i = .ok (diffs i)) :
    updateBuffers diff start ((List.range' start count).map accumulated) =
      .ok ((List.range' start count).map fun i =>
        (diffs i).accumulate (accumulated i)) := by
  induction count generalizing start with
  | zero => rfl
  | succ count ih =>
      rw [List.range'_succ] at told ⊢
      have rest := ih (start + 1)
        fun i member => told i (List.mem_cons_of_mem start member)
      rw [List.map_cons, List.map_cons, updateBuffers,
        told start List.mem_cons_self]
      simp only [rest]

theorem updateBuffers_length {diff : Nat → Except Failure CounterDiff}
    {start : Nat} {accumulated : List ℚ}
    (told : ∀ i, start ≤ i → i < start + accumulated.length →
      ∃ diffs, diff i = .ok diffs) :
    ∃ result, updateBuffers diff start accumulated = .ok result ∧
      result.length = accumulated.length := by
  induction accumulated generalizing start with
  | nil => exact ⟨[], rfl, rfl⟩
  | cons first rest ih =>
      rw [List.length_cons] at told
      obtain ⟨diffs, here⟩ := told start le_rfl (by omega)
      have later : ∀ i, start + 1 ≤ i → i < start + 1 + rest.length →
          ∃ diffs, diff i = .ok diffs :=
        fun i above below => told i (by omega) (by omega)
      obtain ⟨result, updated, length⟩ := ih later
      refine ⟨diffs.accumulate first :: result, ?_, congrArg (· + 1) length⟩
      rw [updateBuffers, here]
      simp only [updated]

theorem updateBuffers_totals {diff : Nat → Except Failure CounterDiff}
    (told : ∀ i < ncounters, diff i =
      .ok (((columns i).getLastD .zero).diff (reading i)))
    (follows : ∀ i < ncounters,
      Follows ((columns i).getLastD .zero) (reading i)) :
    updateBuffers diff 0 (totals ncounters columns) =
      .ok (totals ncounters fun i => columns i ++ [reading i]) := by
  rw [totals, totals, List.range_eq_range', updateBuffers_map 0 ncounters]
  · refine congrArg Except.ok (List.map_congr_left fun i member => ?_)
    rw [← List.range_eq_range', List.mem_range] at member
    rw [accumulate_diff (follows i member), increments_concat]
  · intro i member
    rw [← List.range_eq_range', List.mem_range] at member
    exact told i member

theorem totals_le
    (follows : ∀ i < ncounters,
      Follows ((columns i).getLastD .zero) (reading i)) :
    List.Forall₂ (· ≤ ·) (totals ncounters columns)
      (totals ncounters fun i => columns i ++ [reading i]) := by
  rw [totals, totals, List.forall₂_map_left_iff, List.forall₂_map_right_iff,
    List.forall₂_same]
  intro i member
  rw [increments_concat]
  exact le_add_of_nonneg_right
    (scaledDifference_nonneg (follows i (List.mem_range.mp member)))

end

/-- Nothing is counted while the time stands still. -/
def OnlyInTime (earlier later : UserspaceReadFormat) : Prop :=
  later.timeEnabled = earlier.timeEnabled → later.value = earlier.value

/-- Of a counter that has always run, a buffer has the last value exactly if
nothing has been counted in no time. -/
theorem increments_running {column : List UserspaceReadFormat}
    (chain : (UserspaceReadFormat.zero :: column).IsChain Follows)
    (running : ∀ reading ∈ column, reading.timeEnabled = reading.timeRunning) :
    increments scaledDifference .zero column =
        ((column.getLastD .zero).value.toNat : ℚ) ↔
      (UserspaceReadFormat.zero :: column).IsChain OnlyInTime := by
  let Step (earlier later : UserspaceReadFormat) : Prop :=
    Follows earlier later ∧ earlier.timeEnabled = earlier.timeRunning ∧
      later.timeEnabled = later.timeRunning
  have runs : ∀ reading ∈ UserspaceReadFormat.zero :: column,
      reading.timeEnabled = reading.timeRunning :=
    List.forall_mem_cons.mpr ⟨rfl, running⟩
  have steps : (UserspaceReadFormat.zero :: column).IsChain Step :=
    chain.imp_of_mem_imp fun earlier later member laterMember follows =>
      ⟨follows, runs earlier member, runs later laterMember⟩
  have below : ∀ earlier later, Step earlier later →
      scaledDifference earlier later ≤
        (later.value.toNat : ℚ) - earlier.value.toNat := by
    rintro earlier later ⟨follows, before, after⟩
    rw [scaledDifference_of_running before after]
    split_ifs
    · exact toNat_sub_nonneg follows.value
    · exact le_rfl
  have whole : ((column.getLastD .zero).value.toNat : ℚ) =
      increments (fun earlier later : UserspaceReadFormat =>
        (later.value.toNat : ℚ) - earlier.value.toNat) .zero column := by
    rw [increments_sub fun reading : UserspaceReadFormat =>
      (reading.value.toNat : ℚ)]
    exact (sub_zero _).symm
  rw [whole, increments_eq_iff below steps]
  apply List.IsChain.iff_of_mem_imp
  intro earlier later member laterMember
  rw [scaledDifference_of_running (runs earlier member) (runs later laterMember),
    OnlyInTime]
  split_ifs with same
  · rw [eq_comm, sub_eq_zero, Nat.cast_inj, UInt64.toNat_inj]
    exact ⟨fun equal _ => equal, fun idle => idle same⟩
  · exact iff_of_true rfl fun equal => absurd equal same

/-- What `accumulated_` is after readings of each counter. -/
structure AddedUp (ncounters : Nat) (columns : Nat → List UserspaceReadFormat)
    (accumulated : List ℚ) : Prop where
  size : accumulated.length = ncounters
  sum : ∀ i < ncounters, accumulated[i]? =
    some (increments scaledDifference .zero (columns i))
  running : ∀ i < ncounters,
    (∀ reading ∈ columns i, reading.timeEnabled = reading.timeRunning) →
      (accumulated[i]? = some (((columns i).getLastD .zero).value.toNat : ℚ) ↔
        (UserspaceReadFormat.zero :: columns i).IsChain OnlyInTime)

/-- The counters start at zero and do not decrease. -/
def Counting (ncounters : Nat) (columns : Nat → List UserspaceReadFormat) :
    Prop :=
  ∀ i < ncounters, (UserspaceReadFormat.zero :: columns i).IsChain Follows

instance (ncounters : Nat) (columns : Nat → List UserspaceReadFormat) :
    Decidable (Counting ncounters columns) :=
  inferInstanceAs (Decidable (∀ i < ncounters, List.IsChain _ _))

theorem addedUp_totals {ncounters : Nat}
    {columns : Nat → List UserspaceReadFormat}
    (counting : Counting ncounters columns) :
    AddedUp ncounters columns (totals ncounters columns) := by
  have sum : ∀ i < ncounters, (totals ncounters columns)[i]? =
      some (increments scaledDifference .zero (columns i)) := by
    intro i inside
    rw [totals, List.getElem?_map, List.getElem?_range inside]
    rfl
  refine ⟨?_, sum, fun i inside running => ?_⟩
  · rw [totals, List.length_map, List.length_range]
  · rw [sum i inside, Option.some_inj]
    exact increments_running (counting i inside) running

theorem totals_nil (ncounters : Nat) :
    totals ncounters (fun _ => []) = List.replicate ncounters 0 := by
  rw [totals]
  simp only [increments_nil, List.map_const', List.length_range]

theorem getD_replicate_self {α : Type} {count i : Nat} (value : α) :
    (List.replicate count value).getD i value = value := by
  rw [List.getD_eq_getElem?_getD, List.getElem?_replicate]
  split_ifs
  · rfl
  · rfl

theorem getElem?_eq_getD {α : Type} {list : List α} {i : Nat}
    (inside : i < list.length) (value : α) :
    list[i]? = some (list.getD i value) := by
  rw [List.getD_eq_getElem?_getD, List.getElem?_eq_getElem inside]
  rfl

/-- A counter in a reading of all of them. -/
def UserspaceReadFormat.counter (i : Nat) (reading : List UserspaceReadFormat) :
    UserspaceReadFormat :=
  reading.getD i .zero

/-- The readings of a counter. -/
def column {ρ : Type} (counter : Nat → ρ → UserspaceReadFormat)
    (readings : List ρ) (i : Nat) : List UserspaceReadFormat :=
  readings.map (counter i)

theorem column_concat {ρ : Type} (counter : Nat → ρ → UserspaceReadFormat)
    (readings : List ρ) (reading : ρ) (i : Nat) :
    column counter (readings ++ [reading]) i =
      column counter readings i ++ [counter i reading] :=
  List.map_append

namespace GroupCounterBuffer

/-- What the buffer holds after some readings. -/
structure Tracks (ncounters : Nat) (readings : List GroupReadFormat)
    (b : GroupCounterBuffer) : Prop where
  accumulated : b.accumulated =
    totals ncounters (column GroupReadFormat.counter readings)
  currentNr : b.current.nr = ncounters
  previousNr : b.previous.nr = ncounters
  last : ∀ i < ncounters, b.previous.counter i =
    (column GroupReadFormat.counter readings i).getLastD .zero

theorem tracks_init (ncounters : Nat) :
    Tracks ncounters [] (init ncounters) where
  accumulated := (totals_nil _).symm
  currentNr := rfl
  previousNr := rfl
  last _ _ := congrArg (fun value => UserspaceReadFormat.mk value 0 0)
    (getD_replicate_self 0)

@[simp] theorem current_store (inbuf : GroupReadFormat)
    (b : GroupCounterBuffer) : (b.store inbuf).current = inbuf := by
  obtain ⟨accumulated, front, back, currentIsFront⟩ := b
  cases currentIsFront
  · rfl
  · rfl

@[simp] theorem previous_store (inbuf : GroupReadFormat)
    (b : GroupCounterBuffer) : (b.store inbuf).previous = b.previous := by
  obtain ⟨accumulated, front, back, currentIsFront⟩ := b
  cases currentIsFront
  · rfl
  · rfl

@[simp] theorem accumulated_store (inbuf : GroupReadFormat)
    (b : GroupCounterBuffer) : (b.store inbuf).accumulated = b.accumulated := by
  unfold store
  split_ifs
  · rfl
  · rfl

/-- What `std::swap` of the pointers does. -/
def swapped (accumulated : List ℚ) (b : GroupCounterBuffer) :
    GroupCounterBuffer :=
  { b with
    accumulated := accumulated
    currentIsFront := !b.currentIsFront }

@[simp] theorem current_swapped (accumulated : List ℚ)
    (b : GroupCounterBuffer) : (b.swapped accumulated).current = b.previous := by
  unfold swapped current previous
  cases b.currentIsFront
  · rfl
  · rfl

@[simp] theorem previous_swapped (accumulated : List ℚ)
    (b : GroupCounterBuffer) : (b.swapped accumulated).previous = b.current := by
  unfold swapped current previous
  cases b.currentIsFront
  · rfl
  · rfl

/-- The sizes that the constructor sets up. -/
structure Sized (ncounters : Nat) (b : GroupCounterBuffer) : Prop where
  accumulated : b.accumulated.length = ncounters
  currentNr : b.current.nr = ncounters
  previousNr : b.previous.nr = ncounters

theorem sized_init (ncounters : Nat) : Sized ncounters (init ncounters) :=
  ⟨List.length_replicate, rfl, rfl⟩

theorem Tracks.sized {ncounters : Nat} {readings : List GroupReadFormat}
    {b : GroupCounterBuffer} (tracks : Tracks ncounters readings b) :
    Sized ncounters b where
  accumulated := by
    rw [tracks.accumulated, totals, List.length_map, List.length_range]
  currentNr := tracks.currentNr
  previousNr := tracks.previousNr

section

variable {ncounters : Nat} {b : GroupCounterBuffer} {inbuf : GroupReadFormat}

theorem Sized.diff_eq (sized : Sized ncounters b) (whole : inbuf.nr = ncounters)
    {i : Nat} (inside : i < ncounters) :
    (b.store inbuf).diff i =
      .ok ((b.previous.counter i).diff (inbuf.counter i)) := by
  rw [GroupCounterBuffer.diff, current_store, previous_store, if_pos]
  rw [inbuf.counted, b.previous.counted, whole, sized.previousNr]
  exact ⟨inside, inside⟩

/-- Where the differences can be taken, the assertions hold too. -/
theorem Sized.read_eq (sized : Sized ncounters b) (whole : inbuf.nr = ncounters)
    {result : List ℚ}
    (updated : updateBuffers (b.store inbuf).diff 0 b.accumulated =
      .ok result) :
    b.read inbuf = .ok ((b.store inbuf).swapped result) := by
  rw [GroupCounterBuffer.read,
    if_neg (not_not_intro (sized.accumulated.trans whole.symm)),
    if_neg (not_not_intro (sized.currentNr.trans sized.previousNr.symm))]
  simp only [accumulated_store, updated]
  rfl

/-- A reading of all counters succeeds, and the times are those of it. -/
theorem read_sized (sized : Sized ncounters b) (whole : inbuf.nr = ncounters) :
    ∃ next, b.read inbuf = .ok next ∧ Sized ncounters next ∧
      next.previous = inbuf := by
  have told : ∀ i, 0 ≤ i → i < 0 + b.accumulated.length →
      ∃ diffs, (b.store inbuf).diff i = .ok diffs := by
    intro i _ inside
    rw [sized.accumulated, Nat.zero_add] at inside
    exact ⟨_, sized.diff_eq whole inside⟩
  obtain ⟨result, updated, length⟩ := updateBuffers_length told
  refine ⟨(b.store inbuf).swapped result, sized.read_eq whole updated,
    ⟨?_, ?_, ?_⟩, ?_⟩
  · exact length.trans sized.accumulated
  · rw [current_swapped, previous_store, sized.previousNr]
  · rw [previous_swapped, current_store, whole]
  · rw [previous_swapped, current_store]

theorem read_tracks {readings : List GroupReadFormat}
    (tracks : Tracks ncounters readings b) (whole : inbuf.nr = ncounters)
    (follows : ∀ i < ncounters,
      Follows ((column GroupReadFormat.counter readings i).getLastD .zero)
        (inbuf.counter i)) :
    ∃ next, b.read inbuf = .ok next ∧
      Tracks ncounters (readings ++ [inbuf]) next := by
  have told : ∀ i < ncounters, (b.store inbuf).diff i =
      .ok (((column GroupReadFormat.counter readings i).getLastD .zero).diff
        (inbuf.counter i)) := by
    intro i inside
    rw [← tracks.last i inside]
    exact tracks.sized.diff_eq whole inside
  have updated := updateBuffers_totals told follows
  simp only [← column_concat, ← tracks.accumulated] at updated
  refine ⟨(b.store inbuf).swapped _, tracks.sized.read_eq whole updated,
    rfl, ?_, ?_, ?_⟩
  · rw [current_swapped, previous_store, tracks.previousNr]
  · rw [previous_swapped, current_store, whole]
  · intro i _
    rw [previous_swapped, current_store, column_concat,
      List.getLastD_concat]

end

end GroupCounterBuffer

namespace UserspaceCounterBuffer

/-- What the buffer holds after some readings. -/
structure Tracks (ncounters : Nat) (readings : List (List UserspaceReadFormat))
    (b : UserspaceCounterBuffer) : Prop where
  accumulated : b.accumulated =
    totals ncounters (column UserspaceReadFormat.counter readings)
  size : b.previous.length = ncounters
  last : ∀ i < ncounters, UserspaceReadFormat.counter i b.previous =
    (column UserspaceReadFormat.counter readings i).getLastD .zero

theorem tracks_init (ncounters : Nat) : Tracks ncounters [] (init ncounters) where
  accumulated := (totals_nil ncounters).symm
  size := List.length_replicate
  last _ _ := getD_replicate_self UserspaceReadFormat.zero

/-- The sizes that the constructor sets up. -/
structure Sized (ncounters : Nat) (b : UserspaceCounterBuffer) : Prop where
  accumulated : b.accumulated.length = ncounters
  previous : b.previous.length = ncounters

theorem sized_init (ncounters : Nat) : Sized ncounters (init ncounters) :=
  ⟨List.length_replicate, List.length_replicate⟩

theorem Tracks.sized {ncounters : Nat}
    {readings : List (List UserspaceReadFormat)} {b : UserspaceCounterBuffer}
    (tracks : Tracks ncounters readings b) : Sized ncounters b where
  accumulated := by
    rw [tracks.accumulated, totals, List.length_map, List.length_range]
  previous := tracks.size

section

variable {ncounters : Nat} {b : UserspaceCounterBuffer}
  {inbuf : List UserspaceReadFormat}

theorem Sized.diff_eq (sized : Sized ncounters b)
    (whole : inbuf.length = ncounters) {i : Nat} (inside : i < ncounters) :
    ({ b with current := inbuf } : UserspaceCounterBuffer).diff i =
      .ok ((UserspaceReadFormat.counter i b.previous).diff
        (UserspaceReadFormat.counter i inbuf)) := by
  have now : inbuf[i]? = some (UserspaceReadFormat.counter i inbuf) :=
    getElem?_eq_getD (whole ▸ inside) _
  have before : b.previous[i]? =
      some (UserspaceReadFormat.counter i b.previous) :=
    getElem?_eq_getD (sized.previous ▸ inside) _
  simp only [UserspaceCounterBuffer.diff, now, before]

theorem read_sized (sized : Sized ncounters b)
    (whole : inbuf.length = ncounters) :
    ∃ next, b.read inbuf = .ok next ∧ Sized ncounters next := by
  have told : ∀ i, 0 ≤ i → i < 0 + b.accumulated.length → ∃ diffs,
      ({ b with current := inbuf } : UserspaceCounterBuffer).diff i =
        .ok diffs := by
    intro i _ inside
    rw [sized.accumulated, Nat.zero_add] at inside
    exact ⟨_, sized.diff_eq whole inside⟩
  obtain ⟨result, updated, length⟩ := updateBuffers_length told
  refine ⟨⟨result, b.previous, inbuf⟩, ?_, length.trans sized.accumulated, whole⟩
  simp only [UserspaceCounterBuffer.read, updated]

theorem read_tracks {readings : List (List UserspaceReadFormat)}
    (tracks : Tracks ncounters readings b) (whole : inbuf.length = ncounters)
    (follows : ∀ i < ncounters,
      Follows ((column UserspaceReadFormat.counter readings i).getLastD .zero)
        (UserspaceReadFormat.counter i inbuf)) :
    ∃ next, b.read inbuf = .ok next ∧
      Tracks ncounters (readings ++ [inbuf]) next := by
  have told : ∀ i < ncounters,
      ({ b with current := inbuf } : UserspaceCounterBuffer).diff i =
        .ok (((column UserspaceReadFormat.counter readings i).getLastD .zero).diff
          (UserspaceReadFormat.counter i inbuf)) := by
    intro i inside
    rw [← tracks.last i inside]
    exact tracks.sized.diff_eq whole inside
  have updated := updateBuffers_totals told follows
  simp only [← column_concat, ← tracks.accumulated] at updated
  refine ⟨⟨totals ncounters (column UserspaceReadFormat.counter
    (readings ++ [inbuf])), b.previous, inbuf⟩, ?_, rfl, whole, ?_⟩
  · simp only [UserspaceCounterBuffer.read, updated]
  · intro i _
    rw [column_concat, List.getLastD_concat]

end

end UserspaceCounterBuffer

end Lo2s
