import Lo2s.EventDelivery
import Lo2s.TracepointMerge

/-!
# The merge on the ring buffers

A ring buffer stands for the queue of its pending records.  Each operation of a
reader does the same to both, and so does each step of the merge: what has been
shown of the queues holds of the ring buffers, as long as the kernel appends
only what fits.
-/

namespace Lo2s

open Foundation

/-- Two kinds of readers on which every operation does the same, as long as
the records that are appended fit. -/
structure PullReader.Simulates {ρ τ : Type} (reader : PullReader ρ)
    (abstract : PullReader τ) (fits : TimedRecord → ρ → Prop)
    (represents : ρ → τ → Prop) : Prop where
  empty : ∀ {r q}, represents r q → reader.empty r = abstract.empty q
  top : ∀ {r q}, represents r q → abstract.empty q = false →
    ∃ event r' q', reader.top r = .ok (event, r') ∧
      abstract.top q = .ok (event, q') ∧ represents r' q' ∧
      abstract.empty q' = false
  pop : ∀ {r q}, represents r q → abstract.empty q = false →
    ∃ r' q', reader.pop r = .ok r' ∧ abstract.pop q = .ok q' ∧ represents r' q'
  append : ∀ {r q record}, represents r q → fits record r →
    represents (reader.append record r) (abstract.append record q)

namespace MultiReader

variable {ι ρ τ : Type} [LinearOrder ι]

/-- Two `MultiReader`s that differ in their readers only. -/
structure Represents (represents : ρ → τ → Prop) (s : MultiReader ι ρ)
    (t : MultiReader ι τ) : Prop where
  readers : ∀ identity, represents (s.readers identity) (t.readers identity)
  keys : s.keys = t.keys
  highestWritten : s.highestWritten = t.highestWritten
  phase : s.phase = t.phase
  arrived : s.arrived = t.arrived
  compared : s.compared = t.compared
  taken : s.taken = t.taken

section

variable {reader : PullReader ρ} {abstract : PullReader τ}
  {fits : TimedRecord → ρ → Prop} {represents : ρ → τ → Prop}
  {s : MultiReader ι ρ} {t : MultiReader ι τ}

theorem represents_update {readers : ι → ρ} {readers' : ι → τ} {r : ρ} {q : τ}
    (represented : ∀ identity, represents (readers identity) (readers' identity))
    (changed : represents r q) (identity other : ι) :
    represents (Function.update readers identity r other)
      (Function.update readers' identity q other) := by
  by_cases same : other = identity
  · subst same
    rwa [Function.update_self, Function.update_self]
  · rw [Function.update_of_ne same, Function.update_of_ne same]
    exact represented other

theorem Represents.scan (simulates : reader.Simulates abstract fits represents)
    (both : Represents represents s t) {identity : ι}
    (nonempty : abstract.empty (t.readers identity) = false) (rest : List ι)
    (available : PriorityQueue (ReaderState.Early (ι := ι))) :
    ∃ s' t', s.scan reader identity rest available = .ok s' ∧
      t.scan abstract identity rest available = .ok t' ∧
      Represents represents s' t' := by
  obtain ⟨event, r', q', top, top', changed, _⟩ :=
    simulates.top (both.readers identity) nonempty
  refine ⟨_, _, by simp only [MultiReader.scan, top]; rfl,
    by simp only [MultiReader.scan, top']; rfl, ?_⟩
  exact ⟨represents_update both.readers changed identity, both.keys,
    both.highestWritten, rfl, both.arrived, by rw [both.compared], both.taken⟩

theorem Represents.consume (simulates : reader.Simulates abstract fits represents)
    (both : Represents represents s t) {identity : ι}
    (nonempty : abstract.empty (t.readers identity) = false)
    (event : TracepointSample) :
    ∃ s' t', s.consume reader event identity = .ok s' ∧
      t.consume abstract event identity = .ok t' ∧
      Represents represents s' t' := by
  obtain ⟨r', q', popped, popped', changed⟩ :=
    simulates.pop (both.readers identity) nonempty
  refine ⟨_, _, by simp only [MultiReader.consume, popped]; rfl,
    by simp only [MultiReader.consume, popped']; rfl, ?_⟩
  exact ⟨represents_update both.readers changed identity, both.keys,
    by simp only [both.highestWritten], both.phase, both.arrived, both.compared,
    by simp only [both.highestWritten, both.taken]⟩

theorem Represents.drain (simulates : reader.Simulates abstract fits represents)
    (both : Represents represents s t) {state : ReaderState ι}
    (nonempty : abstract.empty (t.readers state.identity) = false)
    (available : PriorityQueue (ReaderState.Early (ι := ι))) :
    ∃ s' t', s.drain reader state available = .ok s' ∧
      t.drain abstract state available = .ok t' ∧
      Represents represents s' t' := by
  obtain ⟨event, r', q', top, top', changed, remains⟩ :=
    simulates.top (both.readers state.identity) nonempty
  simp only [MultiReader.drain, top, top', bind, Except.bind]
  have looked : Represents represents
      { s with
        readers := Function.update s.readers state.identity r'
        compared := s.compared ++ [(state.identity, event)] }
      { t with
        readers := Function.update t.readers state.identity q'
        compared := t.compared ++ [(state.identity, event)] } :=
    ⟨represents_update both.readers changed state.identity, both.keys,
      both.highestWritten, both.phase, both.arrived, by rw [both.compared],
      both.taken⟩
  by_cases elsewhere : earlierElsewhere event available = true
  · rw [if_pos elsewhere, if_pos elsewhere]
    exact ⟨_, _, rfl, rfl, looked.readers, looked.keys, looked.highestWritten,
      rfl, looked.arrived, looked.compared, looked.taken⟩
  · rw [if_neg elsewhere, if_neg elsewhere]
    refine looked.consume simulates ?_ event
    show abstract.empty (Function.update t.readers _ q' _) = false
    rw [Function.update_self]
    exact remains

theorem Represents.withPhase (both : Represents represents s t)
    (phase : MergePhase ι) :
    Represents represents { s with phase := phase } { t with phase := phase } :=
  ⟨both.readers, both.keys, both.highestWritten, rfl, both.arrived,
    both.compared, both.taken⟩

theorem Represents.advance
    (simulates : reader.Simulates abstract fits represents)
    (both : Represents represents s t) :
    ∃ s' t', s.advance reader = .ok s' ∧ t.advance abstract = .ok t' ∧
      Represents represents s' t' := by
  rw [MultiReader.advance, MultiReader.advance, both.phase]
  cases t.phase with
  | idle => exact ⟨s, t, rfl, rfl, both⟩
  | scanning rest available =>
      cases rest with
      | nil => exact ⟨_, _, rfl, rfl, both.withPhase _⟩
      | cons identity rest =>
          have same := simulates.empty (both.readers identity)
          cases nonempty : abstract.empty (t.readers identity) with
          | true =>
              rw [nonempty] at same
              simp only [same, nonempty, if_true]
              exact ⟨_, _, rfl, rfl, both.withPhase _⟩
          | false =>
              rw [nonempty] at same
              simp only [same, nonempty, Bool.false_eq_true, if_false]
              exact both.scan simulates nonempty rest available
  | merging available =>
      cases popped : available.pop? with
      | none =>
          simp only [popped]
          exact ⟨_, _, rfl, rfl, both.withPhase _⟩
      | some taken =>
          simp only [popped]
          exact ⟨_, _, rfl, rfl, both.withPhase _⟩
  | draining state available =>
      have same := simulates.empty (both.readers state.identity)
      cases nonempty : abstract.empty (t.readers state.identity) with
      | true =>
          rw [nonempty] at same
          simp only [same, nonempty, if_true]
          exact ⟨_, _, rfl, rfl, both.withPhase _⟩
      | false =>
          rw [nonempty] at same
          simp only [same, nonempty, Bool.false_eq_true, if_false]
          exact both.drain simulates nonempty available

/-- What is appended to the buffers fits. -/
def Fits (fits : TimedRecord → ρ → Prop) (s : MultiReader ι ρ) :
    MergeInput ι → Prop
  | .arrive identity record => fits record (s.readers identity)
  | _ => True

theorem Represents.step
    (simulates : reader.Simulates abstract fits represents)
    (both : Represents represents s t) {input : MergeInput ι}
    (fitting : Fits fits s input) :
    ∃ s' t', s.step reader input = .ok s' ∧ t.step abstract input = .ok t' ∧
      Represents represents s' t' := by
  cases input with
  | arrive identity record =>
      refine ⟨_, _, rfl, rfl, ?_, both.keys, both.highestWritten, both.phase, ?_,
        both.compared, both.taken⟩
      · exact represents_update both.readers
          (simulates.append (both.readers identity) fitting) identity
      · show s.arrived ++ _ = t.arrived ++ _
        rw [both.arrived]
  | read =>
      refine ⟨_, _, rfl, rfl, ?_⟩
      rw [start, start, both.phase]
      cases t.phase with
      | idle =>
          exact ⟨both.readers, both.keys, both.highestWritten,
            congrArg (MergePhase.scanning · .empty) both.keys, both.arrived,
            both.compared, both.taken⟩
      | _ => exact both
  | advance => exact both.advance simulates

end

end MultiReader

namespace EventReader

/-- A ring buffer with the records of a queue pending. -/
def Stands (r : EventReader) (queue : List TracepointSample) : Prop :=
  ∃ before, ∃ pending : List TimedRecord,
    r.Layout before (pending.map TimedRecord.toPerfRecord) ∧
      queue = pending.map TimedRecord.sample

/-- The kernel appends behind the tail only, and fewer than 2 ^ 64 bytes in
total. -/
def Fits (record : TimedRecord) (r : EventReader) : Prop :=
  r.dataHead.toNat + record.bytes.length < 2 ^ 64 ∧
    r.dataHead.toNat + record.bytes.length ≤ r.dataTail.toNat + r.size

instance Fits.decidable (record : TimedRecord) (r : EventReader) :
    Decidable (Fits record r) := inferInstanceAs (Decidable (_ ∧ _))

theorem stands_init (mapping : PerfMapping) (data : Circular UInt8)
    (eventCopy : Nat → UInt8) : Stands (.init mapping data eventCopy) [] :=
  ⟨[], [], ⟨rfl, rfl, Nat.zero_le _, rfl⟩, rfl⟩

theorem Stands.empty_eq {r : EventReader} {queue : List TracepointSample}
    (stands : Stands r queue) : r.empty = queue.isEmpty := by
  obtain ⟨before, pending, layout, rfl⟩ := stands
  rw [Bool.eq_iff_iff, layout.empty_iff, List.isEmpty_iff, List.map_eq_nil_iff,
    List.map_eq_nil_iff]

theorem Stands.first {r : EventReader} {queue : List TracepointSample}
    (stands : Stands r queue) (nonempty : queue.isEmpty = false) :
    ∃ before, ∃ record : TimedRecord, ∃ pending : List TimedRecord,
      r.Layout before (record.toPerfRecord ::
        pending.map TimedRecord.toPerfRecord) ∧
      queue = record.sample :: pending.map TimedRecord.sample := by
  obtain ⟨before, pending, layout, rfl⟩ := stands
  cases pending with
  | nil => cases nonempty
  | cons record pending => exact ⟨before, record, pending, layout, rfl⟩

end EventReader

/-- A reader does with its ring buffer what it would do with a queue. -/
theorem PullReader.ring_simulates :
    ring.Simulates queue EventReader.Fits EventReader.Stands where
  empty stands := stands.empty_eq
  top stands nonempty := by
    obtain ⟨before, record, pending, layout, rfl⟩ := stands.first nonempty
    obtain ⟨pointer, eventCopy, got, points⟩ := layout.get_spec
    have kept := layout.eventCopy eventCopy
    have time := kept.loadField_eq points (record.hasTime)
    have bytes := ReadSession.loadRecord_eq kept points
    refine ⟨record.sample, _, _, ?_, rfl,
      ⟨before, record :: pending, kept, rfl⟩, rfl⟩
    simp only [ring, got, time, bytes, bind, Except.bind]
    rfl
  pop stands nonempty := by
    obtain ⟨before, record, pending, layout, rfl⟩ := stands.first nonempty
    obtain ⟨eventCopy, dataTail, popped, after⟩ := layout.pop_spec
    exact ⟨_, _, popped, rfl, before ++ [record.toPerfRecord], pending, after, rfl⟩
  append := by
    rintro r q record ⟨before, pending, layout, rfl⟩ ⟨small, free⟩
    refine ⟨before, pending ++ [record], ?_, by simp [queue]⟩
    rw [List.map_append]
    exact layout.append small free

namespace MultiReader

/-- On ring buffers into which everything fits, the merge does what it does on
queues. -/
theorem rings_merged {ι : Type} [LinearOrder ι] (keys : List ι)
    (distinct : keys.Nodup) (mapping : ι → PerfMapping)
    (data : ι → Circular UInt8) (eventCopy : ι → Nat → UInt8)
    {inputs : List (MergeInput ι)}
    (allowed : AllowedRun (step .ring) (Fits EventReader.Fits)
      (.init keys distinct fun identity =>
        .init (mapping identity) (data identity) (eventCopy identity)) inputs) :
    ∃ s t, run (step .ring) (.init keys distinct fun identity =>
        .init (mapping identity) (data identity) (eventCopy identity)) inputs =
          .ok s ∧
      run (step .queue) (.init keys distinct fun _ => []) inputs = .ok t ∧
      Represents EventReader.Stands s t ∧ Merged t := by
  have start : Represents EventReader.Stands
      (.init keys distinct fun identity =>
        .init (mapping identity) (data identity) (eventCopy identity))
      (.init keys distinct fun _ => []) :=
    ⟨fun _ => EventReader.stands_init _ _ _, rfl, rfl, rfl, rfl, rfl, rfl⟩
  obtain ⟨s, t, reached, reached', both⟩ := run_simulates id
    (fun _ _ _ both fitting =>
      Represents.step PullReader.ring_simulates both fitting) start allowed
  rw [List.map_id] at reached'
  obtain ⟨same, again, merged⟩ := merged_of_run keys distinct inputs
  rw [reached', Except.ok.injEq] at again
  exact ⟨s, t, reached, reached', both, again ▸ merged⟩

end MultiReader

end Lo2s
