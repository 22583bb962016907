import Lo2s.Foundation.Run
import Lo2s.MetricClasses

/-!
# Members and values line up

A writer fills the values from the collection of its reader, in the order in
which the events have been opened, and the members of its metric class come from
an equivalent collection.  So the value and the member at an index belong to
events with the same attributes, for every sample of every scope.
-/

namespace Lo2s

open Foundation

theorem setValue_append (value old : ℚ) (front back : List ℚ) :
    setValue front.length value (front ++ old :: back) =
      .ok (front ++ value :: back) := by
  have inside : front.length < (front ++ old :: back).length := by
    rw [List.length_append, List.length_cons]
    omega
  rw [setValue, if_pos inside, List.set_append_right _ _ le_rfl, Nat.sub_self,
    List.set_cons_zero]

/-- The loop fills the elements behind those that are there, and leaves what
follows. -/
theorem fillValues_spec {scale : Nat → Except Failure ℚ}
    {accumulated factors front old : List ℚ} (back : List ℚ)
    (size : old.length = accumulated.length)
    (sameSize : factors.length = accumulated.length)
    (told : ∀ k factor, factors[k]? = some factor →
      scale (front.length + k) = .ok factor) :
    fillValues scale front.length accumulated (front ++ old ++ back) =
      .ok (front ++ List.zipWith (· * ·) accumulated factors ++ back) := by
  induction accumulated generalizing front factors old with
  | nil =>
      obtain rfl := List.length_eq_zero_iff.mp size
      simp [fillValues]
  | cons first rest ih =>
      obtain ⟨value, olds, rfl⟩ := List.exists_cons_of_length_eq_add_one size
      obtain ⟨factor, factors, rfl⟩ :=
        List.exists_cons_of_length_eq_add_one sameSize
      have here : scale front.length = .ok factor := told 0 factor rfl
      have set : setValue front.length (first * factor)
          (front ++ value :: olds ++ back) =
            .ok ((front ++ [first * factor]) ++ olds ++ back) := by
        have filled := setValue_append (first * factor) value front (olds ++ back)
        simpa only [List.append_assoc, List.cons_append, List.nil_append]
          using filled
      have later : ∀ k other, factors[k]? = some other →
          scale ((front ++ [first * factor]).length + k) = .ok other := by
        intro k other there
        have next := told (k + 1) other there
        rw [List.length_append, List.length_singleton, Nat.add_assoc,
          Nat.add_comm 1 k]
        exact next
      have rest := ih (Nat.succ.inj size) (Nat.succ.inj sameSize) later
      rw [List.length_append, List.length_singleton] at rest
      simp only [fillValues, here, set, rest]
      simp

theorem fillValues_all {scale : Nat → Except Failure ℚ}
    {accumulated factors old : List ℚ} (back : List ℚ)
    (size : old.length = accumulated.length)
    (sameSize : factors.length = accumulated.length)
    (told : ∀ k factor, factors[k]? = some factor → scale k = .ok factor) :
    fillValues scale 0 accumulated (old ++ back) =
      .ok (List.zipWith (· * ·) accumulated factors ++ back) := by
  have shifted : ∀ k factor, factors[k]? = some factor →
      scale (([] : List ℚ).length + k) = .ok factor := by
    intro k factor there
    rw [List.length_nil, Nat.zero_add]
    exact told k factor there
  exact fillValues_spec back size sameSize shifted

namespace CounterCollection

theorem getScale_events {collection : CounterCollection}
    (leader : collection.leader ≠ none) {k : Nat} {factor : ℚ}
    (there : (collection.events.map (·.scale))[k]? = some factor) :
    collection.getScale k = .ok factor := by
  obtain ⟨first, known⟩ := Option.ne_none_iff_exists'.mp leader
  rw [events, known] at there
  cases k with
  | zero =>
      rw [getScale, if_pos rfl, known]
      exact congrArg Except.ok (Option.some.inj there)
  | succ k =>
      change (collection.counters.map (·.scale))[k]? = some factor at there
      rw [List.getElem?_map, Option.map_eq_some_iff] at there
      obtain ⟨ev, found, rfl⟩ := there
      rw [getScale, if_neg (Nat.succ_ne_zero k), Nat.add_sub_cancel, found]

theorem getScale_counters {collection : CounterCollection}
    (noLeader : collection.leader = none) {k : Nat} {factor : ℚ}
    (there : (collection.events.map (·.scale))[k]? = some factor) :
    collection.getScale (k + 1) = .ok factor := by
  rw [events, noLeader] at there
  change (collection.counters.map (·.scale))[k]? = some factor at there
  rw [List.getElem?_map, Option.map_eq_some_iff] at there
  obtain ⟨ev, found, rfl⟩ := there
  rw [getScale, if_neg (Nat.succ_ne_zero k), Nat.add_sub_cancel, found]

end CounterCollection

/-- The attributes tell the events of the configuration apart. -/
def CounterSources.ToldApart (sources : CounterSources) : Prop :=
  ∀ ev other, sources.Configured ev → sources.Configured other →
    ev.bytes = other.bytes → ev.member = other.member

/-- Members and values, of which there are as many: for each event the member
registered for its attributes and its sum in its own scale, and then the
times. -/
structure LinesUp (sources : CounterSources) (events : List CounterEvent)
    (accumulated : List ℚ) (times : List (MetricMember × ℚ))
    (members : List MetricMember) (values : List ℚ) : Prop where
  counted : accumulated.length = events.length
  size : members.length = values.length
  members : ∃ own, members = own ++ times.map (·.1) ∧
    List.Forall₂ sources.Names events own ∧
    (sources.ToldApart → own = events.map (·.member))
  values : values = List.zipWith (fun sum ev => sum * ev.scale) accumulated
    events ++ times.map (·.2)

/-- Where the attributes tell events apart, each has its own member. -/
theorem names_own {sources : CounterSources} {events : List CounterEvent}
    {own : List MetricMember} (apart : sources.ToldApart)
    (configured : ∀ ev ∈ events, sources.Configured ev)
    (named : List.Forall₂ sources.Names events own) :
    own = events.map (·.member) := by
  induction named with
  | nil => rfl
  | cons first _ ih =>
      obtain ⟨other, known, same, rfl⟩ := first
      rw [List.map_cons, ih fun ev member =>
        configured ev (List.mem_cons_of_mem _ member)]
      exact congrArg (· :: _)
        (apart other _ known (configured _ List.mem_cons_self) same)

variable {ρ σ η γ θ : Type}

/-- Values for the events of a scope line up with a class that describes
them. -/
theorem linesUp_of_describes {registry : MetricRegistry ρ σ η γ θ}
    {sources : CounterSources} {d : MetricDefinitions ρ σ γ}
    {collection : CounterCollection} {members : List η}
    {scope : MetricScope} {accumulated : List ℚ}
    {times : List (MetricMember × ℚ)} (sound : registry.Sound sources d)
    (composed : sources.countersOf scope = .ok collection)
    (describes : registry.Describes d collection members)
    (counted : accumulated.length = collection.events.length)
    (timed : times.map (·.1) = collection.times) :
    LinesUp sources collection.events accumulated times
      (members.map registry.member)
      (List.zipWith (fun sum ev => sum * ev.scale) accumulated
        collection.events ++ times.map (·.2)) := by
  obtain ⟨own, last, rfl, lastTimed, registered⟩ := describes
  have named : List.Forall₂ sources.Names collection.events
      (own.map registry.member) :=
    List.forall₂_map_right_iff.mpr
      (registered.imp fun ev member found => sound.members.events ev member found)
  rw [List.map_append, lastTimed, ← timed]
  refine ⟨counted, ?_, ⟨_, rfl, named, fun apart => ?_⟩, rfl⟩
  · rw [List.length_append, List.length_append, List.length_zipWith, counted,
      Nat.min_self, List.length_map, ← registered.length_eq, List.length_map,
      List.length_map]
  · exact names_own apart (fun ev member =>
      CounterSources.configured_of_mem composed member) named

theorem zipWith_scale (accumulated : List ℚ) (events : List CounterEvent) :
    List.zipWith (· * ·) accumulated (events.map (·.scale)) =
      List.zipWith (fun sum ev => sum * ev.scale) accumulated events :=
  List.zipWith_map_right

/-- Whoever asks the composer and then for the class of the same scope gets a
class that describes the counters. -/
theorem MetricState.describes_of_asked {registry : MetricRegistry ρ σ η γ θ}
    {sources : CounterSources} {scope : MetricScope}
    {s final : MetricState ρ σ γ} {composer : CounterComposer}
    {collection : CounterCollection} {metricClass : θ}
    (lawful : registry.Lawful) (sound : s.Sound registry sources)
    (asked : s.composer.countersFor sources scope = .ok (composer, collection))
    (defined : registry.perfMetricClass sources scope ⟨composer, s.definitions⟩ =
      (final, .ok metricClass)) :
    sources.countersOf scope = .ok collection ∧ final.Sound registry sources ∧
      registry.Describes final.definitions collection
        (registry.membersOf metricClass final) := by
  obtain ⟨agrees, composed⟩ :=
    CounterComposer.countersFor_spec sound.composer asked
  have asking : Sound registry sources ⟨composer, s.definitions⟩ :=
    ⟨agrees, sound.definitions⟩
  obtain ⟨soundFinal, described⟩ := perfMetricClass_spec lawful scope asking
  rw [defined] at soundFinal described
  obtain ⟨same, composedToo, describes⟩ := described metricClass rfl
  cases composed.symm.trans composedToo
  exact ⟨composed, soundFinal, describes⟩

namespace GroupWriter

/-- A writer for a collection whose class has these members. -/
structure Ready (collection : CounterCollection) (members : List η)
    (w : GroupWriter η) : Prop where
  sameCollection : w.collection = collection
  sameMembers : w.members = members
  buffer : w.buffer.Sized collection.events.length
  values : w.values.length = collection.events.length + 2

variable {collection : CounterCollection} {members : List η}
  {w : GroupWriter η} {sample : GroupReadFormat}

theorem exists_append_pair {values : List ℚ} {count : Nat}
    (size : values.length = count + 2) :
    ∃ old enabled running, values = old ++ [enabled, running] ∧
      old.length = count := by
  have two : (values.drop count).length = 2 := by
    rw [List.length_drop, size, Nat.add_sub_cancel_left]
  obtain ⟨enabled, running, pair⟩ := List.length_eq_two.mp two
  refine ⟨values.take count, enabled, running, ?_, ?_⟩
  · rw [← pair, List.take_append_drop]
  · rw [List.length_take, size]
    omega

theorem handle_spec (ready : w.Ready collection members)
    (leader : collection.leader ≠ none)
    (whole : sample.nr = collection.events.length) :
    ∃ next, w.handle sample = .ok next ∧ next.Ready collection members ∧
      next.values = List.zipWith (fun sum ev => sum * ev.scale)
          next.buffer.accumulated collection.events ++
        [(sample.timeEnabled.toNat : ℚ), (sample.timeRunning.toNat : ℚ)] := by
  obtain ⟨buffer, read, sized, last⟩ :=
    GroupCounterBuffer.read_sized ready.buffer whole
  have room : ¬ w.values.length < buffer.accumulated.length := by
    rw [ready.values, sized.accumulated]
    omega
  obtain ⟨old, enabled, running, split, count⟩ :=
    exists_append_pair ready.values
  have size : old.length = buffer.accumulated.length :=
    count.trans sized.accumulated.symm
  have told : ∀ k factor, (collection.events.map (·.scale))[k]? = some factor →
      w.collection.getScale k = .ok factor := by
    intro k factor there
    rw [ready.sameCollection]
    exact CounterCollection.getScale_events leader there
  have sameSize : (collection.events.map (·.scale)).length =
      buffer.accumulated.length := by
    rw [List.length_map, sized.accumulated]
  have filled := fillValues_all [enabled, running] size sameSize told
  rw [← split, zipWith_scale] at filled
  let own := List.zipWith (fun sum ev => sum * ev.scale) buffer.accumulated
    collection.events
  have ownSize : own.length = buffer.accumulated.length := by
    rw [List.length_zipWith, sized.accumulated, Nat.min_self]
  have first : setValue buffer.accumulated.length buffer.enabled.toNat
      (own ++ [enabled, running]) =
        .ok (own ++ [(sample.timeEnabled.toNat : ℚ), running]) := by
    rw [← ownSize, GroupCounterBuffer.enabled, last]
    exact setValue_append _ enabled own [running]
  have second : setValue (buffer.accumulated.length + 1) buffer.running.toNat
      (own ++ [(sample.timeEnabled.toNat : ℚ), running]) =
        .ok (own ++ [(sample.timeEnabled.toNat : ℚ),
          (sample.timeRunning.toNat : ℚ)]) := by
    have set := setValue_append (sample.timeRunning.toNat : ℚ) running
      (own ++ [(sample.timeEnabled.toNat : ℚ)]) []
    rw [List.length_append, List.length_singleton, List.append_assoc,
      List.append_assoc] at set
    rw [← ownSize, GroupCounterBuffer.running, last]
    exact set
  refine ⟨{ w with
    buffer := buffer
    values := own ++ [(sample.timeEnabled.toNat : ℚ),
      (sample.timeRunning.toNat : ℚ)] }, ?_,
    ⟨ready.sameCollection, ready.sameMembers, sized, ?_⟩, rfl⟩
  · simp only [handle, bind, Except.bind, read, if_neg room, filled]
    rw [first]
    dsimp only
    rw [second]
  · rw [List.length_append, ownSize, sized.accumulated]
    rfl

/-- A new writer has the counters of its scope and a class that describes
them. -/
theorem start_spec {registry : MetricRegistry ρ σ η γ θ}
    {sources : CounterSources} {scope : ExecutionScope}
    {s next : MetricState ρ σ γ} (lawful : registry.Lawful)
    (sound : s.Sound registry sources)
    (started : start registry sources scope s = (next, .ok w)) :
    sources.countersOf ⟨true, scope⟩ = .ok w.collection ∧
      w.collection.leader ≠ none ∧ next.Sound registry sources ∧
      registry.Describes next.definitions w.collection w.members ∧
      w.buffer.Sized w.collection.events.length ∧
      w.values.length = w.members.length := by
  unfold start at started
  rcases asked : s.composer.countersFor sources ⟨true, scope⟩ with
    thrown | ⟨composer, collection⟩
  · rw [asked] at started
    cases started
  rw [asked] at started
  dsimp only at started
  by_cases missing : collection.leader.isNone = true
  · rw [if_pos missing] at started
    cases started
  · rw [if_neg missing] at started
    rcases defined : registry.perfMetricClass sources ⟨true, scope⟩
      ⟨composer, s.definitions⟩ with ⟨final, thrown | metricClass⟩
    · rw [defined] at started
      cases started
    · obtain ⟨composed, soundNext, describes⟩ :=
        MetricState.describes_of_asked lawful sound asked defined
      rw [defined] at started
      cases started
      have leader : collection.leader ≠ none := by
        rwa [Option.isNone_iff_eq_none] at missing
      obtain ⟨first, known⟩ := Option.ne_none_iff_exists'.mp leader
      have count : collection.counters.length + 1 =
          collection.events.length := by
        rw [CounterCollection.events, known]
        rfl
      refine ⟨composed, leader, soundNext, describes, ?_, List.length_replicate⟩
      rw [← count]
      exact GroupCounterBuffer.sized_init _

end GroupWriter

namespace UserspaceWriter

/-- A writer for a collection whose class has these members. -/
structure Ready (collection : CounterCollection) (members : List η)
    (w : UserspaceWriter η) : Prop where
  sameCollection : w.collection = collection
  sameMembers : w.members = members
  buffer : w.buffer.Sized collection.events.length
  values : w.values.length = collection.events.length

variable {collection : CounterCollection} {members : List η}
  {w : UserspaceWriter η} {data : List UserspaceReadFormat}

theorem handle_spec (ready : w.Ready collection members)
    (noLeader : collection.leader = none)
    (whole : data.length = collection.events.length) :
    ∃ next, w.handle data = .ok next ∧ next.Ready collection members ∧
      next.values = List.zipWith (fun sum ev => sum * ev.scale)
        next.buffer.accumulated collection.events := by
  obtain ⟨buffer, read, sized⟩ :=
    UserspaceCounterBuffer.read_sized ready.buffer whole
  have size : w.values.length = buffer.accumulated.length := by
    rw [ready.values, sized.accumulated]
  have told : ∀ k factor, (collection.events.map (·.scale))[k]? = some factor →
      w.collection.getScale (k + 1) = .ok factor := by
    intro k factor there
    rw [ready.sameCollection]
    exact CounterCollection.getScale_counters noLeader there
  have sameSize : (collection.events.map (·.scale)).length =
      buffer.accumulated.length := by
    rw [List.length_map, sized.accumulated]
  have filled := fillValues_all [] size sameSize told
  rw [List.append_nil, List.append_nil, zipWith_scale] at filled
  refine ⟨{ w with
    buffer := buffer
    values := List.zipWith (fun sum ev => sum * ev.scale) buffer.accumulated
      collection.events }, ?_,
    ⟨ready.sameCollection, ready.sameMembers, sized, ?_⟩, rfl⟩
  · simp only [handle, bind, Except.bind, read, size, lt_irrefl, if_false,
      filled]
  · rw [List.length_zipWith, sized.accumulated, Nat.min_self]

/-- A new writer has the counters of its scope and a class that describes
them. -/
theorem start_spec {registry : MetricRegistry ρ σ η γ θ}
    {sources : CounterSources} {scope : ExecutionScope}
    {s next : MetricState ρ σ γ} (lawful : registry.Lawful)
    (sound : s.Sound registry sources)
    (started : start registry sources scope s = (next, .ok w)) :
    sources.countersOf ⟨false, scope⟩ = .ok w.collection ∧
      next.Sound registry sources ∧
      registry.Describes next.definitions w.collection w.members ∧
      w.buffer.Sized w.collection.events.length ∧
      w.values.length = w.members.length := by
  unfold start at started
  rcases asked : s.composer.countersFor sources ⟨false, scope⟩ with
    thrown | ⟨composer, collection⟩
  · rw [asked] at started
    cases started
  rw [asked] at started
  dsimp only at started
  rcases defined : registry.perfMetricClass sources ⟨false, scope⟩
    ⟨composer, s.definitions⟩ with ⟨final, thrown | members⟩
  · rw [defined] at started
    cases started
  · obtain ⟨composed, soundNext, describes⟩ :=
      MetricState.describes_of_asked lawful sound asked defined
    rw [defined] at started
    cases started
    have noLeader := MetricState.leader_of_userspace composed rfl
    have all : collection.counters = collection.events := by
      rw [CounterCollection.events, noLeader]
      rfl
    refine ⟨composed, soundNext, describes, ?_, List.length_replicate⟩
    rw [← all]
    exact UserspaceCounterBuffer.sized_init _

end UserspaceWriter

/-- What is asked of the composer and of the trace by any scope. -/
inductive MetricCall where
  | countersFor (scope : MetricScope)
  | perfMetricClass (scope : MetricScope)

namespace MetricState

section

variable (registry : MetricRegistry ρ σ η γ θ) (sources : CounterSources)

/-- A call, which may throw. -/
def perform (s : MetricState ρ σ γ) : MetricCall → MetricState ρ σ γ
  | .countersFor scope =>
      match s.composer.countersFor sources scope with
      | .error _ => s
      | .ok (composer, _) => { s with composer := composer }
  | .perfMetricClass scope => (registry.perfMetricClass sources scope s).1

def after (d : MetricDefinitions ρ σ γ) (calls : List MetricCall) :
    MetricState ρ σ γ :=
  calls.foldl (perform registry sources) ⟨.init, d⟩

end

variable {registry : MetricRegistry ρ σ η γ θ} {sources : CounterSources}

theorem Sound.perform (lawful : registry.Lawful) {s : MetricState ρ σ γ}
    (sound : s.Sound registry sources) (call : MetricCall) :
    (s.perform registry sources call).Sound registry sources := by
  cases call with
  | countersFor scope =>
      rw [MetricState.perform]
      rcases asked : s.composer.countersFor sources scope with
        thrown | ⟨composer, collection⟩
      · exact sound
      · exact ⟨(CounterComposer.countersFor_spec sound.composer asked).1,
          sound.definitions⟩
  | perfMetricClass scope => exact (perfMetricClass_spec lawful scope sound).1

theorem sound_after (lawful : registry.Lawful) {d : MetricDefinitions ρ σ γ}
    (unused : registry.Unused d) (calls : List MetricCall) :
    (after registry sources d calls).Sound registry sources := by
  have kept : ∀ s : MetricState ρ σ γ, s.Sound registry sources →
      (calls.foldl (perform registry sources) s).Sound registry sources := by
    induction calls with
    | nil => exact fun s sound => sound
    | cons call calls ih => exact fun s sound => ih _ (sound.perform lawful call)
  exact kept ⟨.init, d⟩ ⟨CounterComposer.agrees_init, unused.sound⟩

end MetricState

section

variable {registry : MetricRegistry ρ σ η γ θ} {sources : CounterSources}
  {scope : ExecutionScope} {s next : MetricState ρ σ γ}

theorem group_lineUp (lawful : registry.Lawful)
    (sound : s.Sound registry sources) {w : GroupWriter η}
    (started : GroupWriter.start registry sources scope s = (next, .ok w)) :
    sources.countersOf ⟨true, scope⟩ = .ok w.collection ∧
    ∀ samples : List GroupReadFormat,
      (∀ sample ∈ samples, sample.nr = w.collection.events.length) →
      EveryStep GroupWriter.handle w (fun state sample =>
        ∃ next, state.handle sample = .ok next ∧
          LinesUp sources w.collection.events next.buffer.accumulated
            [(enabledMember, sample.timeEnabled.toNat),
              (runningMember, sample.timeRunning.toNat)]
            (w.members.map registry.member) next.values) samples := by
  obtain ⟨composed, leader, soundNext, describes, sized, values⟩ :=
    GroupWriter.start_spec lawful sound started
  have timed : w.collection.times = [enabledMember, runningMember] :=
    if_pos (Option.isSome_iff_ne_none.mpr leader)
  refine ⟨composed, fun samples whole => ?_⟩
  have ready : w.Ready w.collection w.members := by
    refine ⟨rfl, rfl, sized, ?_⟩
    obtain ⟨own, last, split, lastTimed, registered⟩ := describes
    have two := congrArg List.length (lastTimed.trans timed)
    rw [List.length_map] at two
    rw [values, split, List.length_append, ← registered.length_eq, two]
    rfl
  refine everyStep_of_invariant ?_ ready whole
  intro state sample readyState count
  obtain ⟨next, handled, readyNext, filled⟩ :=
    GroupWriter.handle_spec readyState leader count
  refine ⟨next, handled, readyNext, ?_⟩
  rw [filled]
  exact linesUp_of_describes soundNext.definitions composed describes
    readyNext.buffer.accumulated timed.symm

theorem userspace_lineUp (lawful : registry.Lawful)
    (sound : s.Sound registry sources) {w : UserspaceWriter η}
    (started : UserspaceWriter.start registry sources scope s =
      (next, .ok w)) :
    sources.countersOf ⟨false, scope⟩ = .ok w.collection ∧
    ∀ readings : List (List UserspaceReadFormat),
      (∀ data ∈ readings, data.length = w.collection.events.length) →
      EveryStep UserspaceWriter.handle w (fun state data =>
        ∃ next, state.handle data = .ok next ∧
          LinesUp sources w.collection.events next.buffer.accumulated []
            (w.members.map registry.member) next.values) readings := by
  obtain ⟨composed, soundNext, describes, sized, values⟩ :=
    UserspaceWriter.start_spec lawful sound started
  have noLeader := MetricState.leader_of_userspace composed rfl
  have timed : ([] : List (MetricMember × ℚ)).map (·.1) =
      w.collection.times := by
    rw [CounterCollection.times, noLeader]
    rfl
  refine ⟨composed, fun readings whole => ?_⟩
  have ready : w.Ready w.collection w.members := by
    refine ⟨rfl, rfl, sized, ?_⟩
    obtain ⟨own, last, split, lastTimed, registered⟩ := describes
    rw [← timed, List.map_nil, List.map_eq_nil_iff] at lastTimed
    rw [values, split, lastTimed, List.append_nil, ← registered.length_eq]
  refine everyStep_of_invariant ?_ ready whole
  intro state data readyState count
  obtain ⟨next, handled, readyNext, filled⟩ :=
    UserspaceWriter.handle_spec readyState noLeader count
  refine ⟨next, handled, readyNext, ?_⟩
  have lined := linesUp_of_describes soundNext.definitions composed describes
    readyNext.buffer.accumulated timed
  rw [List.map_nil, List.append_nil, ← filled] at lined
  exact lined

end

/-- Whatever has been asked for before, the metric class of a writer's scope and
the values the writer fills for each sample line up. -/
theorem metrics_lineUp {registry : MetricRegistry ρ σ η γ θ}
    (lawful : registry.Lawful) {d : MetricDefinitions ρ σ γ}
    (unused : registry.Unused d) (sources : CounterSources)
    (calls : List MetricCall) (scope : ExecutionScope) :
    (∀ (s : MetricState ρ σ γ) (w : GroupWriter η),
      GroupWriter.start registry sources scope
        (.after registry sources d calls) = (s, .ok w) →
      sources.countersOf ⟨true, scope⟩ = .ok w.collection ∧
      ∀ samples : List GroupReadFormat,
        (∀ sample ∈ samples, sample.nr = w.collection.events.length) →
        EveryStep GroupWriter.handle w (fun state sample =>
          ∃ next, state.handle sample = .ok next ∧
            LinesUp sources w.collection.events next.buffer.accumulated
              [(enabledMember, sample.timeEnabled.toNat),
                (runningMember, sample.timeRunning.toNat)]
              (w.members.map registry.member) next.values) samples) ∧
    ∀ (s : MetricState ρ σ γ) (w : UserspaceWriter η),
      UserspaceWriter.start registry sources scope
        (.after registry sources d calls) = (s, .ok w) →
      sources.countersOf ⟨false, scope⟩ = .ok w.collection ∧
      ∀ readings : List (List UserspaceReadFormat),
        (∀ data ∈ readings, data.length = w.collection.events.length) →
        EveryStep UserspaceWriter.handle w (fun state data =>
          ∃ next, state.handle data = .ok next ∧
            LinesUp sources w.collection.events next.buffer.accumulated []
              (w.members.map registry.member) next.values) readings := by
  have sound : (MetricState.after registry sources d calls).Sound registry
      sources :=
    MetricState.sound_after lawful unused calls
  constructor
  · intro s w started
    exact group_lineUp lawful sound started
  · intro s w started
    exact userspace_lineUp lawful sound started

/-- An event that is available everywhere. -/
def universalEvent (name : String) (type : UInt32) (config : UInt64)
    (scale : ℚ) : CounterEvent where
  attr := ⟨type, config, 0, 0, false⟩
  name := name
  cpus := [0]
  availability := .universal
  sampling := ⟨0, 0, false, false, false, 0, 0⟩
  scale := scale
  unit := "#"

/-- A group, and a raw event that is the encoding of an event with a scale. -/
def slotsSources : CounterSources where
  config :=
    { groupEnabled := true
      groupLeader := "cpu-clock"
      groupUseFrequency := true
      groupFrequency := 10
      groupCount := 0
      groupCounters := ["r3c"]
      userspaceCounters := ["r3c", "cpu/topdown-total-slots/"]
      clockid := none
      watermark := 0 }
  getEventByName name :=
    if name = "r3c" then .ok (universalEvent "r3c" perfTypeRaw 0x3c 1)
    else .ok (universalEvent "cpu/topdown-total-slots/" perfTypeRaw 0x3c 2)
  getMetricLeader _ := .ok (universalEvent "cpu-clock" perfTypeSoftware 0 1)

namespace MetricRegistry

/-- The registry that keeps everything in tables. -/
def ofTables :
    MetricRegistry (List (CounterEvent × MetricMember))
      (List (String × MetricMember))
      (CounterEvent × MetricMember ⊕ String × MetricMember)
      (List ((CounterCollection × Unit) ×
        List (CounterEvent × MetricMember ⊕ String × MetricMember)))
      (CounterCollection × Unit) where
  events := (Registry.ofTable CounterEvent MetricMember).mapHandle .inl
  names := (Registry.ofTable String MetricMember).mapHandle .inr
  classes := .ofTable CounterCollection Unit _
  member := Sum.elim Prod.snd Prod.snd

theorem ofTables_lawful : ofTables.Lawful where
  events := Registry.ofTable_interns.mapHandle Sum.inl_injective
  names := Registry.ofTable_interns.mapHandle Sum.inr_injective
  classes := GroupRegistry.ofTable_gathers
  member_event data absent := by
    have none := Option.map_eq_none_iff.mp absent
    simp only [ofTables, Registry.mapHandle, Registry.ofTable] at none ⊢
    rw [none]
    rfl
  member_name data absent := by
    have none := Option.map_eq_none_iff.mp absent
    simp only [ofTables, Registry.mapHandle, Registry.ofTable] at none ⊢
    rw [none]
    rfl

theorem ofTables_unused : ofTables.Unused ⟨[], [], []⟩ :=
  ⟨fun _ => rfl, rfl, rfl, fun _ => rfl⟩

end MetricRegistry

/-- Both kinds of writers for one thread, after the class of another scope. -/
theorem metrics_lineUp_slots :
    (∃ s w, GroupWriter.start .ofTables slotsSources (.thread ⟨7⟩)
        (.after .ofTables slotsSources ⟨[], [], []⟩
          [.perfMetricClass ⟨false, .cpu 0⟩]) = (s, .ok w) ∧
      slotsSources.countersOf ⟨true, .thread ⟨7⟩⟩ = .ok w.collection ∧
      EveryStep GroupWriter.handle w (fun state sample =>
        ∃ next, state.handle sample = .ok next ∧
          LinesUp slotsSources w.collection.events next.buffer.accumulated
            [(enabledMember, sample.timeEnabled.toNat),
              (runningMember, sample.timeRunning.toNat)]
            (w.members.map MetricRegistry.ofTables.member) next.values)
        [⟨2, 9, 9, [3, 5], rfl⟩]) ∧
    ∃ s w, UserspaceWriter.start .ofTables slotsSources (.thread ⟨7⟩)
        (.after .ofTables slotsSources ⟨[], [], []⟩
          [.perfMetricClass ⟨false, .cpu 0⟩]) = (s, .ok w) ∧
      slotsSources.countersOf ⟨false, .thread ⟨7⟩⟩ = .ok w.collection ∧
      EveryStep UserspaceWriter.handle w (fun state data =>
        ∃ next, state.handle data = .ok next ∧
          LinesUp slotsSources w.collection.events next.buffer.accumulated []
            (w.members.map MetricRegistry.ofTables.member) next.values)
        [[⟨5, 1, 1⟩, ⟨5, 1, 1⟩]] := by
  have lineUp := metrics_lineUp MetricRegistry.ofTables_lawful
    MetricRegistry.ofTables_unused slotsSources
    [.perfMetricClass ⟨false, .cpu 0⟩] (.thread ⟨7⟩)
  constructor
  · have lined := lineUp.1 _ _ rfl
    refine ⟨_, _, rfl, lined.1, lined.2 _ fun sample member => ?_⟩
    rw [List.mem_singleton.mp member]
    rfl
  · have lined := lineUp.2 _ _ rfl
    refine ⟨_, _, rfl, lined.1, lined.2 _ fun data member => ?_⟩
    rw [List.mem_singleton.mp member]
    rfl

/-- Two events that differ in name and scale only: both members are that of the
first one, whose scale is 1, but the second value is in the scale 2. -/
theorem slots_not_own_member :
    (slotsSources.countersOf ⟨false, .thread ⟨7⟩⟩).map
        (·.counters.map fun ev => (ev.name, ev.scale)) =
      .ok [("r3c", 1), ("cpu/topdown-total-slots/", 2)] ∧
    (UserspaceWriter.start .ofTables slotsSources (.thread ⟨7⟩)
        ⟨.init, ⟨[], [], []⟩⟩).2.map (·.members.map fun member =>
          (MetricRegistry.ofTables.member member).name) =
      .ok ["r3c", "r3c"] ∧
    (UserspaceWriter.start .ofTables slotsSources (.thread ⟨7⟩)
        ⟨.init, ⟨[], [], []⟩⟩).2.toOption.bind
      (fun w => (w.handle [⟨5, 1, 1⟩, ⟨5, 1, 1⟩]).toOption.map (·.values)) =
      some [5, 10] := by
  refine ⟨?_, ?_, ?_⟩
  · decide +kernel
  · decide +kernel
  · decide +kernel

end Lo2s
