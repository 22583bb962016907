import Lo2s.CounterBuffer

/-!
# Sums of counters

Over a run, what a buffer has accumulated is the sum of the scaled differences
between consecutive readings.  One argument serves the buffer of a group and
that of single counters: all it needs is that the buffer keeps the last reading.
-/

namespace Lo2s

open Foundation
open UserspaceReadFormat

/-- Readings of the counters, which do not decrease. -/
structure Readings {ρ : Type} (sized : ρ → Prop)
    (counter : Nat → ρ → UserspaceReadFormat) (ncounters : Nat)
    (readings : List ρ) : Prop where
  sized : ∀ reading ∈ readings, sized reading
  counting : Counting ncounters (column counter readings)

/-- What a buffer makes of readings: sums, which grow with each of them. -/
structure SumsUp {ρ β : Type} (counter : Nat → ρ → UserspaceReadFormat)
    (ncounters : Nat) (read : β → ρ → Except Failure β)
    (accumulated : β → List ℚ) (start : β) (readings : List ρ) : Prop where
  sums : Always read start (fun earlier b =>
    AddedUp ncounters (column counter earlier) (accumulated b)) readings
  grows : EveryStep read start (fun b reading => ∃ next,
    read b reading = .ok next ∧
      List.Forall₂ (· ≤ ·) (accumulated b) (accumulated next)) readings

section

variable {ρ β : Type} {sized : ρ → Prop}
  {counter : Nat → ρ → UserspaceReadFormat} {ncounters : Nat}
  {readings earlier : List ρ} {reading : ρ}

theorem Readings.of_prefix (valid : Readings sized counter ncounters readings)
    (within : earlier <+: readings) :
    Readings sized counter ncounters earlier where
  sized reading member := valid.sized reading (within.subset member)
  counting i inside := by
    obtain ⟨later, rfl⟩ := within
    have chain := valid.counting i inside
    rw [column, List.map_append, ← List.cons_append] at chain
    exact chain.left_of_append

theorem Readings.last
    (valid : Readings sized counter ncounters (earlier ++ [reading])) :
    sized reading ∧ ∀ i < ncounters,
      Follows ((column counter earlier i).getLastD .zero)
        (counter i reading) := by
  refine ⟨valid.sized reading
    (List.mem_append_right _ List.mem_cons_self), fun i inside => ?_⟩
  have chain := valid.counting i inside
  rw [column_concat, isChain_concat_iff] at chain
  exact chain.2

variable {read : β → ρ → Except Failure β} {accumulated : β → List ℚ}
  {start : β} {tracks : List ρ → β → Prop}

/-- A snapshot of the last reading that is kept all along a run. -/
theorem Readings.always (valid : Readings sized counter ncounters readings)
    (initially : tracks [] start)
    (kept : ∀ {earlier b reading}, tracks earlier b → sized reading →
      (∀ i < ncounters, Follows ((column counter earlier i).getLastD .zero)
        (counter i reading)) →
      ∃ next, read b reading = .ok next ∧ tracks (earlier ++ [reading]) next) :
    Always read start tracks readings := by
  apply keeps_along tracks initially
  intro earlier b reading within _ tracked
  obtain ⟨size, follows⟩ := (valid.of_prefix within).last
  exact kept tracked size follows

theorem Readings.sumsUp (valid : Readings sized counter ncounters readings)
    (tracked : Always read start tracks readings)
    (held : ∀ {earlier b}, tracks earlier b →
      accumulated b = totals ncounters (column counter earlier)) :
    SumsUp counter ncounters read accumulated start readings where
  sums := by
    intro earlier within
    obtain ⟨b, reached, tracking⟩ := tracked earlier within
    refine ⟨b, reached, ?_⟩
    change AddedUp ncounters (column counter earlier) (accumulated b)
    rw [held tracking]
    exact addedUp_totals (valid.of_prefix within).counting
  grows := by
    intro earlier reading within b reached
    obtain ⟨same, again, tracking⟩ :=
      tracked earlier ((List.prefix_append _ _).trans within)
    obtain ⟨next, finished, trackingNext⟩ := tracked _ within
    cases reached.symm.trans again
    rw [run_concat, reached] at finished
    refine ⟨next, finished, ?_⟩
    rw [held tracking, held trackingNext,
      funext (column_concat counter earlier reading)]
    exact totals_le (valid.of_prefix within).last.2

end

theorem GroupCounterBuffer.tracks {ncounters : Nat}
    {readings : List GroupReadFormat}
    (valid : Readings (·.nr = ncounters) GroupReadFormat.counter
      ncounters readings) :
    Always GroupCounterBuffer.read (init ncounters) (Tracks ncounters)
      readings :=
  valid.always (tracks_init ncounters) read_tracks

theorem UserspaceCounterBuffer.tracks {ncounters : Nat}
    {readings : List (List UserspaceReadFormat)}
    (valid : Readings (·.length = ncounters) UserspaceReadFormat.counter
      ncounters readings) :
    Always UserspaceCounterBuffer.read (init ncounters) (Tracks ncounters)
      readings :=
  valid.always (tracks_init ncounters) read_tracks

/-- Reading the counters of a group one by one makes no difference. -/
theorem counter_counters {ncounters : Nat} {reading : GroupReadFormat}
    (sized : reading.nr = ncounters) {i : Nat} (inside : i < ncounters) :
    UserspaceReadFormat.counter i reading.counters = reading.counter i := by
  rw [UserspaceReadFormat.counter, GroupReadFormat.counters,
    List.getD_eq_getElem?_getD, List.getElem?_map,
    List.getElem?_range (sized ▸ inside)]
  rfl

theorem column_counters {ncounters : Nat} {readings : List GroupReadFormat}
    (sized : ∀ reading ∈ readings, reading.nr = ncounters) {i : Nat}
    (inside : i < ncounters) :
    column UserspaceReadFormat.counter (readings.map (·.counters)) i =
      column GroupReadFormat.counter readings i := by
  rw [column, column, List.map_map]
  exact List.map_congr_left fun reading member =>
    counter_counters (sized reading member) inside

theorem readings_counters {ncounters : Nat}
    {readings : List GroupReadFormat}
    (valid : Readings (·.nr = ncounters) GroupReadFormat.counter
      ncounters readings) :
    Readings (·.length = ncounters) UserspaceReadFormat.counter
      ncounters (readings.map (·.counters)) where
  sized reading member := by
    obtain ⟨groupReading, inside, rfl⟩ := List.mem_map.mp member
    rw [GroupReadFormat.counters, List.length_map, List.length_range,
      valid.sized groupReading inside]
  counting i inside := by
    rw [column_counters valid.sized inside]
    exact valid.counting i inside

/-- After every reading, both buffers hold the sums of the scaled differences,
which do not decrease.  The sum is the last value of a counter that has always
run exactly if it has never counted while the time stood still, and both
buffers agree on equal readings. -/
theorem counterBuffers_sumUp :
    (∀ (ncounters : Nat) (readings : List GroupReadFormat),
      Readings (·.nr = ncounters) GroupReadFormat.counter ncounters
        readings →
      SumsUp GroupReadFormat.counter ncounters GroupCounterBuffer.read
        (·.accumulated) (.init ncounters) readings ∧
      ∃ group userspace, run GroupCounterBuffer.read (.init ncounters)
          readings = .ok group ∧
        run UserspaceCounterBuffer.read (.init ncounters)
          (readings.map (·.counters)) = .ok userspace ∧
        group.accumulated = userspace.accumulated) ∧
    ∀ (ncounters : Nat) (readings : List (List UserspaceReadFormat)),
      Readings (·.length = ncounters) UserspaceReadFormat.counter ncounters
        readings →
      SumsUp UserspaceReadFormat.counter ncounters UserspaceCounterBuffer.read
        (·.accumulated) (.init ncounters) readings := by
  constructor
  · intro ncounters readings valid
    have tracks := GroupCounterBuffer.tracks valid
    refine ⟨valid.sumsUp tracks fun tracking => tracking.accumulated, ?_⟩
    obtain ⟨group, reached, groupTracks⟩ := tracks readings List.prefix_rfl
    obtain ⟨userspace, finished, userspaceTracks⟩ :=
      UserspaceCounterBuffer.tracks (readings_counters valid) _ List.prefix_rfl
    refine ⟨group, userspace, reached, finished, ?_⟩
    rw [groupTracks.accumulated, userspaceTracks.accumulated, totals, totals]
    apply List.map_congr_left
    intro i member
    rw [column_counters valid.sized (List.mem_range.mp member)]
  · intro ncounters readings valid
    exact valid.sumsUp (UserspaceCounterBuffer.tracks valid)
      fun tracking => tracking.accumulated

/-- Two counters that share a register for a while. -/
theorem counterBuffers_sumUp_multiplexed :
    SumsUp GroupReadFormat.counter 2 GroupCounterBuffer.read (·.accumulated)
      (.init 2) [⟨2, 100, 50, [10, 4], rfl⟩, ⟨2, 200, 150, [30, 4], rfl⟩] ∧
    SumsUp UserspaceReadFormat.counter 2 UserspaceCounterBuffer.read
      (·.accumulated) (.init 2)
      [[⟨10, 100, 50⟩, ⟨4, 100, 100⟩], [⟨30, 200, 150⟩, ⟨4, 200, 200⟩]] :=
  ⟨(counterBuffers_sumUp.1 2
      [⟨2, 100, 50, [10, 4], rfl⟩, ⟨2, 200, 150, [30, 4], rfl⟩]
      ⟨by simp, by decide⟩).1,
    counterBuffers_sumUp.2 2
      [[⟨10, 100, 50⟩, ⟨4, 100, 100⟩], [⟨30, 200, 150⟩, ⟨4, 200, 200⟩]]
      ⟨by simp, by decide⟩⟩

/-- What is counted before any time has passed is lost, though the counter has
run all the time. -/
theorem accumulated_not_last :
    Readings (·.nr = 1) GroupReadFormat.counter 1
        [⟨1, 0, 0, [5], rfl⟩, ⟨1, 70, 70, [7], rfl⟩] ∧
      (run GroupCounterBuffer.read (.init 1)
        [⟨1, 0, 0, [5], rfl⟩, ⟨1, 70, 70, [7], rfl⟩]).map (·.accumulated) =
          .ok [2] ∧
      (run UserspaceCounterBuffer.read (.init 1)
        [[⟨5, 0, 0⟩], [⟨7, 70, 70⟩]]).map (·.accumulated) = .ok [2] ∧
      (2 : ℚ) ≠ (7 : UInt64).toNat := by
  refine ⟨⟨by simp, by decide⟩, ?_, ?_, by decide⟩
  · decide +kernel
  · decide +kernel

end Lo2s
