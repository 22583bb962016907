import Lo2s.TracepointMerge

/-!
# Types of the merged records

The merge does not look at the type of a record.  Whatever is in a buffer when
`read` is called takes part in the comparison of times and is written or
dropped, as if it were a sample.
-/

namespace Lo2s

open Foundation

/-- `PERF_RECORD_SAMPLE` -/
def perfRecordSample : UInt32 := 9

/-- A record that `EventReader::read` would handle as a sample. -/
def TracepointSample.IsSample (record : TracepointSample) : Prop :=
  record.type = perfRecordSample

instance (record : TracepointSample) : Decidable record.IsSample :=
  inferInstanceAs (Decidable (_ = _))

/-- Nothing but a sample has been compared, and nothing but a sample has been
written or dropped. -/
def OnlySamples {ι : Type} (compared : List (ι × TracepointSample))
    (taken : List (TakenSample ι)) : Prop :=
  (∀ entry ∈ compared, entry.2.IsSample) ∧
    ∀ entry ∈ taken, entry.sample.IsSample

namespace MultiReader

variable {ι : Type} [LinearOrder ι] {s t next : OnQueues ι}

/-- The record that a step looks at, with its buffer. -/
inductive LooksAt (s : OnQueues ι) : ι × TracepointSample → Prop where
  | scan {identity rest available event later} :
      s.phase = .scanning (identity :: rest) available →
      s.readers identity = event :: later → LooksAt s (identity, event)
  | drain {state available event later} :
      s.phase = .draining state available →
      s.readers state.identity = event :: later →
      LooksAt s (state.identity, event)

theorem LooksAt.mem {entry : ι × TracepointSample} (looks : LooksAt s entry) :
    entry.2 ∈ s.readers entry.1 := by
  cases looks with
  | scan _ first => rw [first]; exact List.mem_cons_self
  | drain _ first => rw [first]; exact List.mem_cons_self

theorem LooksAt.known {entry : ι × TracepointSample} (looks : LooksAt s entry)
    (reading : Reading s.keys s.readers s.phase) : entry.1 ∈ s.keys := by
  cases looks with
  | scan phase _ =>
      rw [phase] at reading
      exact reading.1 _ List.mem_cons_self
  | drain phase _ =>
      rw [phase] at reading
      exact reading.1

/-- A step compares at most one record and pops at most that one. -/
theorem Advances.looksAt (advances : Advances s next) :
    (next.compared = s.compared ∧ next.taken = s.taken ∧
      next.readers = s.readers) ∨
    ∃ entry, LooksAt s entry ∧ next.compared = s.compared ++ [entry] ∧
      ((next.taken = s.taken ∧ next.readers = s.readers) ∨
        ∃ isWritten later,
          next.taken = s.taken ++ [⟨entry.1, entry.2, isWritten⟩] ∧
          s.readers entry.1 = entry.2 :: later ∧
          next.readers = Function.update s.readers entry.1 later) := by
  cases advances with
  | scan phase first =>
      exact .inr ⟨_, .scan phase first, rfl, .inl ⟨rfl, rfl⟩⟩
  | pushBack phase first _ =>
      exact .inr ⟨_, .drain phase first, rfl, .inl ⟨rfl, rfl⟩⟩
  | drop phase first _ _ =>
      exact .inr ⟨_, .drain phase first, rfl, .inr ⟨_, _, rfl, first, rfl⟩⟩
  | write phase first _ _ =>
      exact .inr ⟨_, .drain phase first, rfl, .inr ⟨_, _, rfl, first, rfl⟩⟩
  | _ => exact .inl ⟨rfl, rfl, rfl⟩

/-- What has been compared or popped had arrived before. -/
structure FromArrivals (s : OnQueues ι) : Prop where
  accounted : Accounted s
  compared : ∀ entry ∈ s.compared, entry ∈ s.arrived
  taken : ∀ entry ∈ s.taken, (entry.identity, entry.sample) ∈ s.arrived

theorem Accounted.mem_arrived (accounted : Accounted s) {identity : ι}
    {sample : TracepointSample} (member : sample ∈ s.readers identity) :
    (identity, sample) ∈ s.arrived := by
  have inside : sample ∈ s.arrivedAt identity := by
    rw [← accounted.once identity]
    exact List.mem_append_right _ member
  obtain ⟨entry, found, rfl⟩ := List.mem_map.mp inside
  obtain ⟨arrived, same⟩ := List.mem_filter.mp found
  rw [← of_decide_eq_true same]
  exact arrived

theorem FromArrivals.advance (origin : FromArrivals s)
    (advances : Advances s next) : FromArrivals next := by
  refine ⟨origin.accounted.advance advances, ?_, ?_⟩
  · rw [advances.arrived_eq]
    rcases advances.looksAt with ⟨compared, _, _⟩ | ⟨entry, looks, compared, _⟩
    · rw [compared]
      exact origin.compared
    · rw [compared]
      intro other member
      rcases List.mem_append.mp member with earlier | same
      · exact origin.compared other earlier
      · rw [List.mem_singleton.mp same]
        exact origin.accounted.mem_arrived looks.mem
  · rw [advances.arrived_eq]
    rcases advances.looksAt with ⟨_, taken, _⟩ |
      ⟨entry, looks, _, ⟨taken, _⟩ | ⟨isWritten, _, taken, _, _⟩⟩
    · rw [taken]
      exact origin.taken
    · rw [taken]
      exact origin.taken
    · rw [taken]
      intro other member
      rcases List.mem_append.mp member with earlier | same
      · exact origin.taken other earlier
      · rw [List.mem_singleton.mp same]
        exact origin.accounted.mem_arrived looks.mem

theorem FromArrivals.step (origin : FromArrivals s) (input : MergeInput ι) :
    ∃ next, s.step .queue input = .ok next ∧ FromArrivals next := by
  cases input with
  | arrive identity record =>
      refine ⟨_, rfl, origin.accounted.arrive identity record, ?_, ?_⟩
      · exact fun entry member =>
          List.mem_append_left _ (origin.compared entry member)
      · exact fun entry member =>
          List.mem_append_left _ (origin.taken entry member)
  | read =>
      refine ⟨_, rfl, origin.accounted.start, ?_, ?_⟩
      · rw [start_arrived, start]
        split <;> exact origin.compared
      · rw [start_arrived, start]
        split <;> exact origin.taken
  | advance =>
      obtain ⟨next, stepped, advances⟩ := advance_spec s
      exact ⟨next, stepped, origin.advance advances⟩

/-- If nothing but samples arrives, nothing but samples is merged. -/
theorem FromArrivals.onlySamples (origin : FromArrivals s)
    (samples : ∀ entry ∈ s.arrived, entry.2.IsSample) :
    OnlySamples s.compared s.taken :=
  ⟨fun entry member => samples entry (origin.compared entry member),
    fun entry member => samples _ (origin.taken entry member)⟩

/-- What has been compared and popped since a call of `read` began was in a
buffer then. -/
structure FromBuffers (s t : OnQueues ι) (compared : List (ι × TracepointSample))
    (popped : List (TakenSample ι)) : Prop where
  compared_eq : t.compared = s.compared ++ compared
  taken_eq : t.taken = s.taken ++ popped
  remains : ∀ identity, ∀ sample ∈ t.readers identity,
    sample ∈ s.readers identity
  compared : ∀ entry ∈ compared, entry.1 ∈ s.keys ∧ entry.2 ∈ s.readers entry.1
  popped : ∀ entry ∈ popped,
    entry.identity ∈ s.keys ∧ entry.sample ∈ s.readers entry.identity

theorem FromBuffers.advance {compared : List (ι × TracepointSample)}
    {popped : List (TakenSample ι)} (drawn : FromBuffers s t compared popped)
    (keys : t.keys = s.keys) (reading : Reading t.keys t.readers t.phase)
    (advances : Advances t next) :
    ∃ compared popped, FromBuffers s next compared popped := by
  rcases advances.looksAt with ⟨compared', taken', readers'⟩ |
    ⟨entry, looks, compared', ⟨taken', readers'⟩ |
      ⟨isWritten, later, taken', first, readers'⟩⟩
  · exact ⟨compared, popped, by rw [compared', drawn.compared_eq],
      by rw [taken', drawn.taken_eq], by rw [readers']; exact drawn.remains,
      drawn.compared, drawn.popped⟩
  all_goals
    have known := keys ▸ looks.known reading
    have inside := drawn.remains entry.1 entry.2 looks.mem
    have all : ∀ other ∈ compared ++ [entry],
        other.1 ∈ s.keys ∧ other.2 ∈ s.readers other.1 := by
      intro other member
      rcases List.mem_append.mp member with earlier | same
      · exact drawn.compared other earlier
      · rw [List.mem_singleton.mp same]
        exact ⟨known, inside⟩
  · exact ⟨compared ++ [entry], popped,
      by rw [compared', drawn.compared_eq, List.append_assoc],
      by rw [taken', drawn.taken_eq], by rw [readers']; exact drawn.remains,
      all, drawn.popped⟩
  · refine ⟨compared ++ [entry], popped ++ [⟨entry.1, entry.2, isWritten⟩],
      by rw [compared', drawn.compared_eq, List.append_assoc],
      by rw [taken', drawn.taken_eq, List.append_assoc], ?_, all, ?_⟩
    · rw [readers']
      exact fun identity sample member =>
        drawn.remains identity sample (mem_of_mem_update first member)
    · intro other member
      rcases List.mem_append.mp member with earlier | same
      · exact drawn.popped other earlier
      · rw [List.mem_singleton.mp same]
        exact ⟨known, inside⟩

theorem FromBuffers.start (idle : s.phase = .idle) :
    FromBuffers s s.start [] [] := by
  rw [MultiReader.start, idle]
  exact ⟨(List.append_nil _).symm, (List.append_nil _).symm,
    fun _ _ member => member, by simp, by simp⟩

theorem start_keys (s : OnQueues ι) : s.start.keys = s.keys := by
  rw [start]
  split <;> rfl

/-- A call looks at what is in the buffers when it begins, and at nothing
else. -/
theorem exists_drawn_call (accounted : Accounted s)
    (idle : s.phase = .idle) :
    ∃ count t compared popped,
      run (step .queue) s (.read :: .replicate count .advance) = .ok t ∧
        t.phase = .idle ∧ FromBuffers s t compared popped ∧
        ∀ identity ∈ s.keys, samplesFrom identity popped = s.readers identity := by
  have called := exists_call
    (fun t => (∃ compared popped, FromBuffers s t compared popped) ∧
      t.keys = s.keys ∧ Accounted t ∧ t.arrived = s.arrived) idle
    ⟨⟨[], [], .start idle⟩, start_keys s, accounted.start, start_arrived s⟩
    fun _ _ reading holds advances => by
      obtain ⟨⟨compared, popped, drawn⟩, keys, after, arrived⟩ := holds
      exact ⟨drawn.advance keys reading advances, advances.keys_eq.trans keys,
        after.advance advances, advances.arrived_eq.trans arrived⟩
  obtain ⟨count, t, reached, finished, drained, ⟨compared, popped, drawn⟩, _,
    after, arrived⟩ := called
  refine ⟨count, t, compared, popped, reached, finished, drawn, ?_⟩
  intro identity known
  exact accounted.samplesFrom_popped after arrived drawn.taken_eq
    (drained identity known)

theorem FromBuffers.buffers_iff {compared : List (ι × TracepointSample)}
    {popped : List (TakenSample ι)} (drawn : FromBuffers s t compared popped)
    (all : ∀ identity ∈ s.keys,
      samplesFrom identity popped = s.readers identity) :
    OnlySamples compared popped ↔
      ∀ identity ∈ s.keys, ∀ record ∈ s.readers identity, record.IsSample := by
  constructor
  · intro only identity known record member
    rw [← all identity known] at member
    obtain ⟨entry, found, rfl⟩ := List.mem_map.mp member
    exact only.2 entry (List.mem_of_mem_filter found)
  · intro samples
    constructor
    · intro entry member
      obtain ⟨known, inside⟩ := drawn.compared entry member
      exact samples entry.1 known entry.2 inside
    · intro entry member
      obtain ⟨known, inside⟩ := drawn.popped entry member
      exact samples entry.identity known entry.sample inside

/-- A call of `read` compares, writes and drops nothing but samples if and only
if the buffers hold nothing else when it begins.  Over any arrivals, also while
it runs, it is enough that nothing but samples arrives. -/
theorem onlySamples_iff (keys : List ι) (distinct : keys.Nodup)
    (inputs : List (MergeInput ι)) :
    ∃ s, run (step .queue) (.init keys distinct fun _ => []) inputs = .ok s ∧
      ((∀ entry ∈ s.arrived, entry.2.IsSample) →
        OnlySamples s.compared s.taken) ∧
      (s.phase = .idle → ∃ count t compared popped,
        run (step .queue) s (.read :: .replicate count .advance) = .ok t ∧
        t.phase = .idle ∧ t.compared = s.compared ++ compared ∧
        t.taken = s.taken ++ popped ∧
        (OnlySamples compared popped ↔ ∀ identity ∈ s.keys,
          ∀ record ∈ s.readers identity, record.IsSample)) := by
  have always := run_total
    (fun (s : OnQueues ι) input origin => FromArrivals.step origin input)
    ⟨Accounted.init keys distinct, by simp [init], by simp [init]⟩ inputs
  obtain ⟨s, reached, origin⟩ := always
  refine ⟨s, reached, origin.onlySamples, fun idle => ?_⟩
  obtain ⟨count, t, compared, popped, called, finished, drawn, all⟩ :=
    exists_drawn_call origin.accounted idle
  exact ⟨count, t, compared, popped, called, finished, drawn.compared_eq,
    drawn.taken_eq, drawn.buffers_iff all⟩

theorem onlySamples_iff_sample :
    ∃ s, run (step .queue) (.init [0] (by decide) fun _ => [])
        [.arrive 0 (sampleAt 5)] = .ok s ∧
      ((∀ entry ∈ s.arrived, entry.2.IsSample) →
        OnlySamples s.compared s.taken) ∧
      (s.phase = .idle → ∃ count t compared popped,
        run (step .queue) s (.read :: .replicate count .advance) = .ok t ∧
        t.phase = .idle ∧ t.compared = s.compared ++ compared ∧
        t.taken = s.taken ++ popped ∧
        (OnlySamples compared popped ↔ ∀ identity ∈ s.keys,
          ∀ record ∈ s.readers identity, record.IsSample)) :=
  onlySamples_iff [0] (by decide) [.arrive 0 (sampleAt 5)]

/-- A `PERF_RECORD_LOST` about one sample, from the event with the id 7. -/
def lostOfSeven : TimedRecord where
  bytes := [2, 0, 0, 0, 0, 0, 24, 0, 7, 0, 0, 0, 0, 0, 0, 0,
    1, 0, 0, 0, 0, 0, 0, 0]
  size_eq := rfl
  hasHeader := by decide
  aligned := rfl
  hasLost offset counts := by
    rw [← Dispatch.countLost.inj counts]
    decide
  hasTime := by decide

/-- The id of a lost record counts as its time: the record is written, and a
sample with an earlier time is dropped after it. -/
theorem lost_record_written :
    ∃ s, run (step .queue) (.init [0, 1] (by decide) fun _ => [])
        (.arrive 0 lostOfSeven :: .read :: .replicate 7 .advance ++
          .arrive 1 (sampleAt 5) :: .read :: .replicate 7 .advance) = .ok s ∧
      s.phase = .idle ∧ lostOfSeven.sample.type = 2 ∧
      (sampleAt 5).sample.IsSample ∧
      s.taken = [⟨0, lostOfSeven.sample, true⟩, ⟨1, (sampleAt 5).sample, false⟩] ∧
      s.highestWritten = 7 :=
  ⟨_, rfl, rfl, by decide, by decide, rfl, rfl⟩

end MultiReader

end Lo2s
