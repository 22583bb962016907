import Lo2s.Foundation.Run
import Lo2s.MultiReader
import Mathlib.Algebra.Order.BigOperators.Group.List
import Mathlib.Algebra.Order.Ring.Nat

/-!
# What the merge does with the events

Whatever arrives and whenever it does, events are written in the order of their
times, and a buffer loses exactly its first events, one at a time.  While
nothing arrives, `earliest_available` has the time of the first event of every
buffer except the one that is being drained, so that an event can only be too
late with respect to what was written before the call.
-/

namespace Lo2s

open Foundation

namespace MultiReader

/-- A `MultiReader` whose readers are queues. -/
abbrev OnQueues (ι : Type) [LinearOrder ι] :=
  MultiReader ι (List TracepointSample)

variable {ι : Type} [LinearOrder ι] {s next : OnQueues ι}

/-- The events popped from one of the buffers. -/
def samplesFrom (identity : ι) (taken : List (TakenSample ι)) :
    List TracepointSample :=
  (taken.filter (·.identity = identity)).map (·.sample)

/-- The events that have arrived in a buffer. -/
def arrivedAt (identity : ι) (s : OnQueues ι) : List TracepointSample :=
  (s.arrived.filter (·.1 = identity)).map (·.2)

/-- The times of the events that have been written. -/
def writtenTimes (s : OnQueues ι) : List UInt64 :=
  s.written.map (·.sample.time)

/-- What `advance` does. -/
inductive Advances (s : OnQueues ι) : OnQueues ι → Prop where
  | idle : s.phase = .idle → Advances s s
  | scanned {available} : s.phase = .scanning [] available →
      Advances s { s with phase := .merging available }
  | skip {identity rest available} :
      s.phase = .scanning (identity :: rest) available →
      s.readers identity = [] →
      Advances s { s with phase := .scanning rest available }
  | scan {identity rest available event later} :
      s.phase = .scanning (identity :: rest) available →
      s.readers identity = event :: later →
      Advances s { s with
        phase := .scanning rest (available.push ⟨event.time, identity⟩)
        compared := s.compared ++ [(identity, event)] }
  | finish {available} : s.phase = .merging available →
      available.elements = [] → Advances s { s with phase := .idle }
  | take {available state rest} : s.phase = .merging available →
      available.pop? = some (state, rest) →
      Advances s { s with phase := .draining state rest }
  | drained {state available} : s.phase = .draining state available →
      s.readers state.identity = [] →
      Advances s { s with phase := .merging available }
  | pushBack {state available event later} :
      s.phase = .draining state available →
      s.readers state.identity = event :: later →
      earlierElsewhere event available = true →
      Advances s { s with
        phase := .merging (available.push { state with time := event.time })
        compared := s.compared ++ [(state.identity, event)] }
  | drop {state available event later} :
      s.phase = .draining state available →
      s.readers state.identity = event :: later →
      earlierElsewhere event available = false →
      event.time < s.highestWritten →
      Advances s { s with
        readers := Function.update s.readers state.identity later
        compared := s.compared ++ [(state.identity, event)]
        taken := s.taken ++ [⟨state.identity, event, false⟩] }
  | write {state available event later} :
      s.phase = .draining state available →
      s.readers state.identity = event :: later →
      earlierElsewhere event available = false →
      s.highestWritten ≤ event.time →
      Advances s { s with
        readers := Function.update s.readers state.identity later
        highestWritten := event.time
        compared := s.compared ++ [(state.identity, event)]
        taken := s.taken ++ [⟨state.identity, event, true⟩] }

theorem drain_spec {state : ReaderState ι}
    {available : PriorityQueue (ReaderState.Early (ι := ι))}
    {event : TracepointSample} {later : List TracepointSample}
    (phase : s.phase = .draining state available)
    (first : s.readers state.identity = event :: later) :
    ∃ next, s.drain .queue state available = .ok next ∧ Advances s next := by
  have same : Function.update s.readers state.identity (event :: later) =
      s.readers := by rw [← first, Function.update_eq_self]
  cases elsewhere : earlierElsewhere event available with
  | true =>
      refine ⟨_, ?_, .pushBack phase first elsewhere⟩
      simp [drain, PullReader.queue, first, same, elsewhere, bind, Except.bind,
        pure, Except.pure, MultiReader.pushBack]
  | false =>
      by_cases late : event.time < s.highestWritten
      · refine ⟨_, ?_, .drop phase first elsewhere late⟩
        simp [drain, PullReader.queue, first, same, elsewhere, late, bind,
          Except.bind, pure, Except.pure, consume]
      · refine ⟨_, ?_, .write phase first elsewhere (UInt64.not_lt.mp late)⟩
        simp [drain, PullReader.queue, first, same, elsewhere, late, bind,
          Except.bind, pure, Except.pure, consume]

theorem advance_spec (s : OnQueues ι) :
    ∃ next, s.advance .queue = .ok next ∧ Advances s next := by
  cases phase : s.phase with
  | idle => exact ⟨s, by rw [advance, phase], .idle phase⟩
  | scanning rest available =>
      cases rest with
      | nil => exact ⟨_, by rw [advance, phase], .scanned phase⟩
      | cons identity rest =>
          cases first : s.readers identity with
          | nil =>
              refine ⟨_, ?_, .skip phase first⟩
              simp [advance, phase, first, PullReader.queue]
          | cons event later =>
              have same : Function.update s.readers identity (event :: later) =
                  s.readers := by rw [← first, Function.update_eq_self]
              refine ⟨_, ?_, .scan phase first⟩
              simp [advance, phase, first, same, PullReader.queue,
                MultiReader.scan, bind, Except.bind, pure, Except.pure]
  | merging available =>
      cases popped : available.pop? with
      | none =>
          refine ⟨_, ?_, .finish phase (PriorityQueue.pop?_eq_none_iff.mp popped)⟩
          simp [advance, phase, popped]
      | some taken =>
          obtain ⟨state, rest⟩ := taken
          refine ⟨_, ?_, .take phase popped⟩
          simp [advance, phase, popped]
  | draining state available =>
      cases first : s.readers state.identity with
      | nil =>
          refine ⟨_, ?_, .drained phase first⟩
          simp [advance, phase, first, PullReader.queue]
      | cons event later =>
          obtain ⟨next, drained, advances⟩ := drain_spec phase first
          refine ⟨next, ?_, advances⟩
          rw [← drained]
          simp [advance, phase, first, PullReader.queue]

theorem filter_map_concat {α : Type} (key : α → ι) (sample : α → TracepointSample)
    (entries : List α) (entry : α) (identity : ι) :
    ((entries ++ [entry]).filter (key · = identity)).map sample =
      (entries.filter (key · = identity)).map sample ++
        if key entry = identity then [sample entry] else [] := by
  by_cases same : key entry = identity <;> simp [List.filter_append, same]

/-- The events written so far are in order, `highest_written_` is the time of
the last of them, and each event that has arrived in a buffer has been popped or
is still there. -/
structure Accounted (s : OnQueues ι) : Prop where
  ordered : s.writtenTimes.Pairwise (· ≤ ·)
  highest : s.highestWritten = s.writtenTimes.getLast?.getD 0
  once : ∀ identity,
    samplesFrom identity s.taken ++ s.readers identity = s.arrivedAt identity

theorem Accounted.init (keys : List ι) (distinct : keys.Nodup) :
    Accounted (.init keys distinct fun _ => []) :=
  ⟨.nil, rfl, fun _ => rfl⟩

/-- No event that has been written is later than `highest_written_`. -/
theorem Accounted.le_highest (accounted : Accounted s) {time : UInt64}
    (member : time ∈ s.writtenTimes) : time ≤ s.highestWritten := by
  have ordered := accounted.ordered
  rw [accounted.highest]
  rcases List.eq_nil_or_concat s.writtenTimes with none | ⟨earlier, last, split⟩
  · rw [none] at member
    cases member
  · rw [List.concat_eq_append] at split
    rw [split] at member ordered ⊢
    rw [List.getLast?_concat, Option.getD_some]
    rcases List.mem_append.mp member with before | same
    · exact (List.pairwise_append.mp ordered).2.2 time before last (by simp)
    · rw [List.mem_singleton.mp same]
      exact UInt64.le_refl last

theorem Accounted.arrive (accounted : Accounted s) (identity : ι)
    (record : TimedRecord) : Accounted (s.arrive .queue identity record) := by
  refine ⟨accounted.ordered, accounted.highest, fun other => ?_⟩
  have once := accounted.once other
  show samplesFrom other s.taken ++ Function.update s.readers identity _ other =
    ((s.arrived ++ [(identity, record.sample)]).filter _).map _
  rw [filter_map_concat, Function.update_apply]
  by_cases same : other = identity
  · subst same
    rw [if_pos rfl, if_pos rfl]
    show samplesFrom other s.taken ++ (s.readers other ++ [record.sample]) =
      s.arrivedAt other ++ [record.sample]
    rw [← List.append_assoc, once]
  · rw [if_neg same, if_neg (Ne.symm same), List.append_nil]
    exact once

theorem Accounted.pop (accounted : Accounted s) {identity : ι}
    {event : TracepointSample} {later : List TracepointSample}
    (first : s.readers identity = event :: later) (isWritten : Bool)
    (other : ι) :
    samplesFrom other (s.taken ++ [⟨identity, event, isWritten⟩]) ++
      Function.update s.readers identity later other = s.arrivedAt other := by
  have once := accounted.once other
  rw [samplesFrom, filter_map_concat, Function.update_apply]
  by_cases same : other = identity
  · subst same
    rw [if_pos rfl, if_pos rfl, List.append_assoc, ← once, first]
    rfl
  · rw [if_neg (Ne.symm same), if_neg same, List.append_nil]
    exact once

theorem Accounted.advance (accounted : Accounted s)
    (advances : Advances s next) : Accounted next := by
  obtain ⟨ordered, highest, once⟩ := id accounted
  cases advances with
  | drop _ first _ _ =>
      refine ⟨?_, ?_, fun other => accounted.pop first false other⟩
      · simpa [writtenTimes, written, List.filter_append] using ordered
      · simpa [writtenTimes, written, List.filter_append] using highest
  | @write state _ event _ _ first _ inTime =>
      have times : ((s.taken ++ [TakenSample.mk state.identity event true]).filter
          (·.written)).map (·.sample.time) = s.writtenTimes ++ [event.time] := by
        simp [writtenTimes, written, List.filter_append]
      refine ⟨?_, ?_, fun other => accounted.pop first true other⟩
      · rw [writtenTimes, written, times, List.pairwise_append]
        refine ⟨ordered, List.pairwise_singleton .., ?_⟩
        intro time member last isLast
        rw [List.mem_singleton.mp isLast]
        exact UInt64.le_trans (accounted.le_highest member) inTime
      · rw [writtenTimes, written, times, List.getLast?_concat]
        rfl
  | _ => exact ⟨ordered, highest, once⟩

theorem Accounted.start (accounted : Accounted s) : Accounted s.start := by
  rw [MultiReader.start]
  split
  · exact ⟨accounted.ordered, accounted.highest, accounted.once⟩
  · exact accounted

theorem Accounted.step (accounted : Accounted s) (input : MergeInput ι) :
    ∃ next, s.step .queue input = .ok next ∧ Accounted next := by
  cases input with
  | arrive identity record =>
      exact ⟨_, rfl, accounted.arrive identity record⟩
  | read => exact ⟨_, rfl, accounted.start⟩
  | advance =>
      obtain ⟨next, stepped, advances⟩ := advance_spec s
      exact ⟨next, stepped, accounted.advance advances⟩

/-- `available` has the time of the first event of each buffer that is not
empty, but for the buffers that are open. -/
structure Tracks (keys : List ι) (readers : ι → List TracepointSample)
    (isOpen : ι → Prop)
    (available : PriorityQueue (ReaderState.Early (ι := ι))) : Prop where
  exact : ∀ state ∈ available.elements,
    (readers state.identity).head?.map (·.time) = some state.time
  known : ∀ state ∈ available.elements, state.identity ∈ keys
  closed : ∀ state ∈ available.elements, ¬ isOpen state.identity
  distinct : (available.elements.map (·.identity)).Nodup
  complete : ∀ identity ∈ keys, readers identity ≠ [] →
    isOpen identity ∨ identity ∈ available.elements.map (·.identity)

/-- What holds in the phases of `read`. -/
def Reading (keys : List ι) (readers : ι → List TracepointSample) :
    MergePhase ι → Prop
  | .idle => ∀ identity ∈ keys, readers identity = []
  | .scanning rest available =>
      (∀ identity ∈ rest, identity ∈ keys) ∧ rest.Nodup ∧
        Tracks keys readers (· ∈ rest) available
  | .merging available => Tracks keys readers (fun _ => False) available
  | .draining state available =>
      state.identity ∈ keys ∧ Tracks keys readers (· = state.identity) available ∧
        ∀ other ∈ available.elements, state.time ≤ other.time

namespace Tracks

variable {keys : List ι} {readers : ι → List TracepointSample}
  {isOpen : ι → Prop} {state : ReaderState ι}
  {available rest : PriorityQueue (ReaderState.Early (ι := ι))}

/-- Fewer buffers are open; those that have been closed are empty. -/
theorem close {isStillOpen : ι → Prop} (tracks : Tracks keys readers isOpen available)
    (fewer : ∀ identity, isStillOpen identity → isOpen identity)
    (closed : ∀ identity ∈ keys, isOpen identity → readers identity ≠ [] →
      isStillOpen identity) : Tracks keys readers isStillOpen available where
  exact := tracks.exact
  known := tracks.known
  closed other member isStill :=
    tracks.closed other member (fewer other.identity isStill)
  distinct := tracks.distinct
  complete identity known nonempty :=
    (tracks.complete identity known nonempty).imp_left
      fun wasOpen => closed identity known wasOpen nonempty

theorem push_identities :
    ((available.push state).elements.map (·.identity)).Perm
      (state.identity :: available.elements.map (·.identity)) :=
  PriorityQueue.push_perm.map _

theorem push {isStillOpen : ι → Prop} (tracks : Tracks keys readers isOpen available)
    (known : state.identity ∈ keys) (wasOpen : isOpen state.identity)
    (first : (readers state.identity).head?.map (·.time) = some state.time)
    (others : ∀ identity, isStillOpen identity ↔
      isOpen identity ∧ identity ≠ state.identity) :
    Tracks keys readers isStillOpen (available.push state) where
  exact other member := by
    rcases PriorityQueue.mem_push.mp member with rfl | earlier
    · exact first
    · exact tracks.exact other earlier
  known other member := by
    rcases PriorityQueue.mem_push.mp member with rfl | earlier
    · exact known
    · exact tracks.known other earlier
  closed other member isStill := by
    obtain ⟨otherOpen, different⟩ := (others other.identity).mp isStill
    rcases PriorityQueue.mem_push.mp member with rfl | earlier
    · exact different rfl
    · exact tracks.closed other earlier otherOpen
  distinct := by
    rw [push_identities.nodup_iff, List.nodup_cons]
    refine ⟨fun inside => ?_, tracks.distinct⟩
    obtain ⟨other, member, same⟩ := List.mem_map.mp inside
    exact tracks.closed other member (same ▸ wasOpen)
  complete identity inKeys nonempty := by
    rw [push_identities.mem_iff, List.mem_cons]
    by_cases same : identity = state.identity
    · exact .inr (.inl same)
    · rcases tracks.complete identity inKeys nonempty with otherOpen | inside
      · exact .inl ((others identity).mpr ⟨otherOpen, same⟩)
      · exact .inr (.inr inside)

theorem pop (tracks : Tracks keys readers (fun _ => False) available)
    (popped : available.pop? = some (state, rest)) :
    Tracks keys readers (· = state.identity) rest := by
  have elements := PriorityQueue.elements_of_pop? popped
  have inside : ∀ other ∈ rest.elements, other ∈ available.elements := by
    intro other member
    rw [elements]
    exact List.mem_cons_of_mem _ member
  have distinct := tracks.distinct
  rw [elements, List.map_cons, List.nodup_cons] at distinct
  refine ⟨fun other member => tracks.exact other (inside other member),
    fun other member => tracks.known other (inside other member), ?_,
    distinct.2, ?_⟩
  · intro other member same
    exact distinct.1 (same ▸ List.mem_map_of_mem member)
  · intro identity inKeys nonempty
    rcases tracks.complete identity inKeys nonempty with never | found
    · exact never.elim
    · rw [elements, List.map_cons, List.mem_cons] at found
      exact found

theorem change {identity : ι} (tracks : Tracks keys readers isOpen available)
    (wasOpen : isOpen identity) (later : List TracepointSample) :
    Tracks keys (Function.update readers identity later) isOpen available where
  exact state member := by
    have different : state.identity ≠ identity :=
      fun same => tracks.closed state member (same ▸ wasOpen)
    rw [Function.update_of_ne different]
    exact tracks.exact state member
  known := tracks.known
  closed := tracks.closed
  distinct := tracks.distinct
  complete other inKeys nonempty := by
    by_cases same : other = identity
    · exact .inl (same ▸ wasOpen)
    · rw [Function.update_of_ne same] at nonempty
      exact tracks.complete other inKeys nonempty

end Tracks

theorem not_earlierElsewhere {state : ReaderState ι}
    {available : PriorityQueue (ReaderState.Early (ι := ι))}
    {event : TracepointSample}
    (least : ∀ other ∈ available.elements, state.time ≤ other.time)
    (same : event.time = state.time) :
    earlierElsewhere event available = false := by
  rw [earlierElsewhere]
  cases found : available.top? with
  | none => rfl
  | some earliest =>
      have order := least earliest (PriorityQueue.mem_of_top? found)
      exact decide_eq_false (UInt64.not_lt.mpr (same ▸ order))

theorem Advances.reading (advances : Advances s next)
    (reading : Reading s.keys s.readers s.phase) :
    Reading next.keys next.readers next.phase := by
  cases advances with
  | idle _ => exact reading
  | scanned phase =>
      rw [phase] at reading
      obtain ⟨_, _, tracks⟩ := reading
      exact tracks.close (fun _ => False.elim) (fun _ _ open' _ => nomatch open')
  | skip phase none =>
      rw [phase] at reading
      obtain ⟨known, distinct, tracks⟩ := reading
      refine ⟨fun other member => known other (List.mem_cons_of_mem _ member),
        distinct.of_cons, tracks.close (fun _ => List.mem_cons_of_mem _) ?_⟩
      intro other _ member nonempty
      rcases List.mem_cons.mp member with rfl | later
      · exact (nonempty none).elim
      · exact later
  | @scan identity _ _ _ _ phase first =>
      rw [phase] at reading
      obtain ⟨known, distinct, tracks⟩ := reading
      rw [List.nodup_cons] at distinct
      refine ⟨fun other member => known other (List.mem_cons_of_mem _ member),
        distinct.2, tracks.push (known _ List.mem_cons_self)
          List.mem_cons_self (by rw [first]; rfl) ?_⟩
      intro other
      constructor
      · intro member
        exact ⟨List.mem_cons_of_mem _ member,
          fun (same : other = identity) => distinct.1 (same ▸ member)⟩
      · rintro ⟨member, different⟩
        exact (List.mem_cons.mp member).resolve_left different
  | finish phase none =>
      rw [phase] at reading
      intro identity known
      by_contra nonempty
      have inside := (Tracks.complete reading identity known nonempty).resolve_left
        not_false
      rw [none] at inside
      cases inside
  | take phase popped =>
      rw [phase] at reading
      have first := PriorityQueue.elements_of_pop? popped
      refine ⟨Tracks.known reading _ (by rw [first]; exact List.mem_cons_self),
        Tracks.pop reading popped, fun other member => ?_⟩
      exact (PriorityQueue.early_of_pop? popped member).time_le
  | drained phase none =>
      rw [phase] at reading
      obtain ⟨_, tracks, _⟩ := reading
      apply tracks.close (fun _ => False.elim)
      rintro _ _ rfl nonempty
      exact nonempty none
  | pushBack phase first _ =>
      rw [phase] at reading
      obtain ⟨known, tracks, _⟩ := reading
      exact tracks.push known rfl (by rw [first]; rfl) (by simp)
  | drop phase _ _ _ =>
      rw [phase] at reading
      obtain ⟨known, tracks, least⟩ := reading
      show Reading _ _ s.phase
      rw [phase]
      exact ⟨known, tracks.change rfl _, least⟩
  | write phase _ _ _ =>
      rw [phase] at reading
      obtain ⟨known, tracks, least⟩ := reading
      show Reading _ _ s.phase
      rw [phase]
      exact ⟨known, tracks.change rfl _, least⟩

/-- The number of events in the buffers. -/
def pending (keys : List ι) (readers : ι → List TracepointSample) : Nat :=
  (keys.map fun identity => (readers identity).length).sum

theorem pending_pop {keys : List ι} {readers : ι → List TracepointSample}
    {identity : ι} {event : TracepointSample} {later : List TracepointSample}
    (known : identity ∈ keys) (first : readers identity = event :: later) :
    pending keys (Function.update readers identity later) <
      pending keys readers := by
  refine List.sum_lt_sum _ _ (fun other _ => ?_) ⟨identity, known, ?_⟩
  · by_cases same : other = identity
    · subst same
      rw [Function.update_self, first]
      exact Nat.le_succ _
    · rw [Function.update_of_ne same]
  · rw [Function.update_self, first]
    exact Nat.lt_succ_self _

/-- An upper bound of the number of steps that are left.  A buffer is only put
back after an event of it has been popped. -/
def stepsLeft (keys : List ι) (readers : ι → List TracepointSample) :
    MergePhase ι → Nat
  | .idle => 0
  | .scanning rest available =>
      4 * pending keys readers + 3 * rest.length +
        2 * available.elements.length + 2
  | .merging available =>
      4 * pending keys readers + 2 * available.elements.length + 1
  | .draining state available =>
      4 * pending keys readers + 2 * available.elements.length +
        if ((readers state.identity).head?.all (·.time = state.time)) then 2
        else 4

theorem Advances.stepsLeft_lt (advances : Advances s next)
    (reading : Reading s.keys s.readers s.phase) (running : s.phase ≠ .idle) :
    stepsLeft next.keys next.readers next.phase <
      stepsLeft s.keys s.readers s.phase := by
  cases advances with
  | idle phase => exact (running phase).elim
  | scanned phase => simp [phase, stepsLeft]
  | skip phase none => simp [phase, stepsLeft]
  | scan phase first =>
      simp only [phase, stepsLeft, PriorityQueue.length_push, List.length_cons]
      omega
  | finish phase none => simp [phase, stepsLeft]
  | take phase popped =>
      have elements := PriorityQueue.elements_of_pop? popped
      rw [phase] at reading ⊢
      have fresh := Tracks.exact reading _ (by rw [elements]; exact List.mem_cons_self)
      simp only [stepsLeft, elements, List.length_cons]
      rw [if_pos]
      · omega
      · rw [Option.map_eq_some_iff] at fresh
        obtain ⟨event, found, same⟩ := fresh
        simp [found, same]
  | drained phase none => simp [phase, stepsLeft, none]
  | pushBack phase first elsewhere =>
      rw [phase] at reading ⊢
      obtain ⟨_, _, least⟩ := reading
      simp only [stepsLeft, PriorityQueue.length_push]
      rw [if_neg]
      · omega
      · intro fresh
        have same := by simpa [first] using fresh
        rw [not_earlierElsewhere least same] at elsewhere
        cases elsewhere
  | drop phase first _ _ =>
      rw [phase] at reading
      have fewer := pending_pop reading.1 first
      show stepsLeft _ _ s.phase < _
      simp only [phase, stepsLeft]
      split_ifs <;> omega
  | write phase first _ _ =>
      rw [phase] at reading
      have fewer := pending_pop reading.1 first
      show stepsLeft _ _ s.phase < _
      simp only [phase, stepsLeft]
      split_ifs <;> omega

/-- The events of a buffer are in the order of their times. -/
def InOrder (pending : List TracepointSample) : Prop :=
  pending.Pairwise fun earlier later => earlier.time ≤ later.time

/-- Of the events popped after others, exactly those with an earlier time than
`highest` have been dropped. -/
def DropsLate (highest : UInt64) (before now : List (TakenSample ι)) : Prop :=
  ∃ popped, now = before ++ popped ∧
    ∀ entry ∈ popped, entry.written = false ↔ entry.sample.time < highest

omit [LinearOrder ι] in
theorem DropsLate.concat {highest : UInt64} {before now : List (TakenSample ι)}
    {entry : TakenSample ι} (drops : DropsLate highest before now)
    (last : entry.written = false ↔ entry.sample.time < highest) :
    DropsLate highest before (now ++ [entry]) := by
  obtain ⟨popped, rfl, late⟩ := drops
  refine ⟨popped ++ [entry], List.append_assoc .., fun other member => ?_⟩
  rcases List.mem_append.mp member with earlier | same
  · exact late other earlier
  · exact List.mem_singleton.mp same ▸ last

/-- What has happened since a call of `read` began with a `highest_written_`:
either nothing has been written since, or nothing that is still to come is
earlier than what has been written last. -/
structure Since (highest : UInt64) (before : List (TakenSample ι))
    (s : OnQueues ι) : Prop where
  inOrder : ∀ identity ∈ s.keys, InOrder (s.readers identity)
  drops : DropsLate highest before s.taken
  level : s.highestWritten = highest ∨ highest ≤ s.highestWritten ∧
    ∀ identity ∈ s.keys, ∀ event ∈ s.readers identity,
      s.highestWritten ≤ event.time

/-- The first event of the buffer that is being drained is the earliest one of
all, unless its reader is put back. -/
theorem Tracks.earliest {keys : List ι} {readers : ι → List TracepointSample}
    {state : ReaderState ι} {event other : TracepointSample}
    {later : List TracepointSample} {identity : ι}
    {available : PriorityQueue (ReaderState.Early (ι := ι))}
    (tracks : Tracks keys readers (· = state.identity) available)
    (inOrder : ∀ identity ∈ keys, InOrder (readers identity))
    (first : readers state.identity = event :: later)
    (here : earlierElsewhere event available = false)
    (known : identity ∈ keys) (member : other ∈ readers identity) :
    event.time ≤ other.time := by
  have ordered := inOrder identity known
  by_cases same : identity = state.identity
  · rw [same, first] at member ordered
    rcases List.mem_cons.mp member with rfl | behind
    · exact UInt64.le_refl _
    · exact List.rel_of_pairwise_cons ordered behind
  · obtain ⟨entry, inside, rfl⟩ := List.mem_map.mp
      ((tracks.complete identity known (List.ne_nil_of_mem member)).resolve_left
        same)
    have exact := tracks.exact entry inside
    -- No buffer begins earlier than what `top` shows.
    have atLeast : event.time ≤ entry.time := by
      rw [earlierElsewhere] at here
      cases found : available.top? with
      | none =>
          rw [PriorityQueue.top?_eq_none_iff.mp found] at inside
          cases inside
      | some earliest =>
          rw [found] at here
          have notBefore := UInt64.not_lt.mp (of_decide_eq_false here)
          have early := available.early_of_top? found inside
          exact UInt64.le_trans notBefore early.time_le
    cases queue : readers entry.identity with
    | nil =>
        rw [queue] at member
        cases member
    | cons head behind =>
        rw [queue] at member exact ordered
        have headTime : head.time = entry.time := by simpa using exact
        rcases List.mem_cons.mp member with rfl | after
        · exact headTime ▸ atLeast
        · have order : head.time ≤ other.time :=
            List.rel_of_pairwise_cons ordered after
          exact UInt64.le_trans atLeast (headTime ▸ order)

theorem InOrder.update {keys : List ι} {readers : ι → List TracepointSample}
    {identity : ι} {event : TracepointSample} {later : List TracepointSample}
    (inOrder : ∀ identity ∈ keys, InOrder (readers identity))
    (first : readers identity = event :: later) :
    ∀ other ∈ keys, InOrder (Function.update readers identity later other) := by
  intro other known
  have ordered := inOrder other known
  by_cases same : other = identity
  · subst same
    rw [first] at ordered
    rw [Function.update_self]
    exact ordered.of_cons
  · rw [Function.update_of_ne same]
    exact ordered

theorem mem_of_mem_update {readers : ι → List TracepointSample}
    {identity other : ι} {event sample : TracepointSample}
    {later : List TracepointSample}
    (first : readers identity = event :: later)
    (member : sample ∈ Function.update readers identity later other) :
    sample ∈ readers other := by
  by_cases same : other = identity
  · subst same
    rw [Function.update_self] at member
    rw [first]
    exact List.mem_cons_of_mem _ member
  · rwa [Function.update_of_ne same] at member

theorem Since.advance {highest : UInt64} {before : List (TakenSample ι)}
    (since : Since highest before s)
    (reading : Reading s.keys s.readers s.phase)
    (advances : Advances s next) : Since highest before next := by
  obtain ⟨inOrder, drops, level⟩ := since
  cases advances with
  | drop phase first here tooLate =>
      refine ⟨InOrder.update inOrder first,
        drops.concat (iff_of_true rfl ?_), ?_⟩
      · -- Only an event from before the call can be the later one.
        rw [phase] at reading
        rcases level with same | ⟨_, ahead⟩
        · exact same ▸ tooLate
        · have inTime := ahead _ reading.1 _
            (by rw [first]; exact List.mem_cons_self)
          exact (UInt64.not_lt.mpr inTime tooLate).elim
      · refine level.imp_right (And.imp_right fun ahead => ?_)
        intro identity known event member
        exact ahead identity known event (mem_of_mem_update first member)
  | write phase first here inTime =>
      have fromStart : highest ≤ s.highestWritten := by
        rcases level with same | ⟨order, _⟩
        · exact same ▸ UInt64.le_refl _
        · exact order
      have order := UInt64.le_trans fromStart inTime
      refine ⟨InOrder.update inOrder first,
        drops.concat (iff_of_false Bool.noConfusion (UInt64.not_lt.mpr order)),
        .inr ⟨order, ?_⟩⟩
      intro identity known event member
      rw [phase] at reading
      exact reading.2.1.earliest inOrder first here known
        (mem_of_mem_update first member)
  | _ => exact ⟨inOrder, drops, level⟩

theorem Reading.start (idle : s.phase = .idle) :
    Reading s.start.keys s.start.readers s.start.phase := by
  rw [MultiReader.start, idle]
  refine ⟨fun _ known => known, s.distinct, ?_, ?_, ?_, .nil, ?_⟩
  · intro state member
    cases member
  · intro state member
    cases member
  · intro state member
    cases member
  · exact fun _ known _ => .inl known

theorem Advances.keys_eq (advances : Advances s next) : next.keys = s.keys := by
  cases advances <;> rfl

theorem Advances.arrived_eq (advances : Advances s next) :
    next.arrived = s.arrived := by
  cases advances <;> rfl

/-- While nothing arrives, a call of `read` returns, all buffers are empty
then, and it keeps what its steps keep. -/
theorem exists_call (invariant : OnQueues ι → Prop) (idle : s.phase = .idle)
    (initially : invariant s.start)
    (kept : ∀ t next, Reading t.keys t.readers t.phase → invariant t →
      Advances t next → invariant next) :
    ∃ count t, run (step .queue) s (.read :: .replicate count .advance) =
        .ok t ∧
      t.phase = .idle ∧ (∀ identity ∈ s.keys, t.readers identity = []) ∧
      invariant t := by
  have sameKeys : s.start.keys = s.keys := by
    rw [MultiReader.start]
    split <;> rfl
  have called : ∃ count t,
      run (step .queue) s.start (.replicate count .advance) = .ok t ∧
        (Reading t.keys t.readers t.phase ∧ t.keys = s.keys ∧ invariant t) ∧
        t.phase = .idle := by
    refine exists_run_of_measure
      (fun t => stepsLeft t.keys t.readers t.phase) ?_
      ⟨Reading.start idle, sameKeys, initially⟩
    rintro t ⟨reading, keys, holds⟩ running
    obtain ⟨next, stepped, advances⟩ := advance_spec t
    exact ⟨next, stepped, ⟨advances.reading reading,
      advances.keys_eq.trans keys, kept t next reading holds advances⟩,
      advances.stepsLeft_lt reading running⟩
  obtain ⟨count, t, reached, ⟨reading, keys, holds⟩, finished⟩ := called
  rw [finished, keys] at reading
  exact ⟨count, t, reached, finished, reading, holds⟩

/-- The events popped in a call are those that were in the buffers. -/
theorem Accounted.samplesFrom_popped {t : OnQueues ι}
    {popped : List (TakenSample ι)} {identity : ι} (before : Accounted s)
    (after : Accounted t) (arrived : t.arrived = s.arrived)
    (taken : t.taken = s.taken ++ popped) (drained : t.readers identity = []) :
    samplesFrom identity popped = s.readers identity := by
  have all : samplesFrom identity (s.taken ++ popped) ++ [] =
      samplesFrom identity s.taken ++ s.readers identity := by
    rw [before.once identity, ← taken, ← drained, after.once identity,
      arrivedAt, arrived]
    rfl
  rw [List.append_nil, samplesFrom, List.filter_append, List.map_append] at all
  exact List.append_cancel_left all

/-- What `MultiReader` does with the events.  They are written in the order of
their times; each is popped once, and written or dropped then; and where the
buffers are in order when `read` is called, and nothing arrives until it
returns, it pops everything and drops exactly the events that are earlier than
the last one written before. -/
structure Merged (s : OnQueues ι) : Prop where
  ordered : s.writtenTimes.Pairwise (· ≤ ·)
  once : ∀ identity,
    samplesFrom identity s.taken ++ s.readers identity = s.arrivedAt identity
  late : s.phase = .idle →
    (∀ identity ∈ s.keys, InOrder (s.readers identity)) →
      ∃ count t popped,
        run (step .queue) s (.read :: .replicate count .advance) = .ok t ∧
        t.phase = .idle ∧ t.taken = s.taken ++ popped ∧
        (∀ identity ∈ s.keys, t.readers identity = [] ∧
          samplesFrom identity popped = s.readers identity) ∧
        ∀ entry ∈ popped, entry.written = false ↔
          ∃ last ∈ s.writtenTimes.getLast?, entry.sample.time < last

theorem Since.start (idle : s.phase = .idle)
    (inOrder : ∀ identity ∈ s.keys, InOrder (s.readers identity)) :
    Since s.highestWritten s.taken s.start := by
  rw [MultiReader.start, idle]
  exact ⟨inOrder, ⟨[], (List.append_nil _).symm, by simp⟩, .inl rfl⟩

/-- An event is earlier than `highest_written_` if it is earlier than the last
one that has been written. -/
theorem Accounted.lt_highest_iff (accounted : Accounted s) (time : UInt64) :
    time < s.highestWritten ↔ ∃ last ∈ s.writtenTimes.getLast?, time < last := by
  rw [accounted.highest]
  cases s.writtenTimes.getLast? with
  | none => simp
  | some last => simp

theorem start_arrived (s : OnQueues ι) : s.start.arrived = s.arrived := by
  rw [start]
  split <;> rfl

theorem Accounted.merged (accounted : Accounted s) : Merged s := by
  refine ⟨accounted.ordered, accounted.once, fun idle inOrder => ?_⟩
  have called := exists_call
    (fun t => Since s.highestWritten s.taken t ∧ Accounted t ∧
      t.arrived = s.arrived) idle
    ⟨Since.start idle inOrder, accounted.start, start_arrived s⟩
    fun _ _ reading holds advances =>
      ⟨holds.1.advance reading advances, holds.2.1.advance advances,
        advances.arrived_eq.trans holds.2.2⟩
  obtain ⟨count, t, reached, finished, drained, since, after, arrived⟩ := called
  obtain ⟨popped, taken, late⟩ := since.drops
  refine ⟨count, t, popped, reached, finished, taken, ?_, ?_⟩
  · intro identity known
    have emptied := drained identity known
    exact ⟨emptied, accounted.samplesFrom_popped after arrived taken emptied⟩
  · intro entry member
    rw [late entry member, accounted.lt_highest_iff]

/-- Merging never loses an event by itself, whatever arrives and whenever
`read` is called. -/
theorem merged_of_run (keys : List ι) (distinct : keys.Nodup)
    (inputs : List (MergeInput ι)) :
    ∃ s, run (step .queue) (.init keys distinct fun _ => []) inputs = .ok s ∧
      Merged s := by
  have always := run_total
    (fun (s : OnQueues ι) input accounted => Accounted.step accounted input)
    (Accounted.init keys distinct) inputs
  obtain ⟨s, reached, accounted⟩ := always
  exact ⟨s, reached, accounted.merged⟩

/-- A sample with a time and nothing else. -/
def sampleAt (time : UInt8) : TimedRecord where
  bytes := [9, 0, 0, 0, 0, 0, 16, 0, time, 0, 0, 0, 0, 0, 0, 0]
  size_eq := rfl
  hasHeader := by simp
  aligned := by simp
  hasLost _ counts := nomatch counts
  hasTime := by simp

theorem merged_of_run_twoBuffers :
    ∃ s, run (step .queue) (.init [0, 1] (by decide) fun _ => [])
        [.arrive 0 (sampleAt 5), .arrive 1 (sampleAt 3), .read] = .ok s ∧
      Merged s :=
  merged_of_run [0, 1] (by decide)
    [.arrive 0 (sampleAt 5), .arrive 1 (sampleAt 3), .read]

example : (run (step .queue) (.init [0, 1] (by decide) fun _ => [])
    (.arrive 0 (sampleAt 5) :: .arrive 1 (sampleAt 3) :: .read ::
      .replicate 10 .advance)).toOption.map writtenTimes =
    some [3, 5] := by decide +kernel

end MultiReader

end Lo2s
