import Lo2s.CounterMetrics

/-!
# Classes of counters

Whoever asks the composer for a scope gets the same collection.  The metric
class is looked up by that collection and each member by its event, so both may
have been defined for other events; these can only be events with the same
attributes.
-/

namespace Lo2s

open Foundation

namespace CounterSources

variable (sources : CounterSources)

/-- What is collected for a kind of metric. -/
def collection (isGroup : Bool) : Except EventFailure CounterCollection :=
  if isGroup then sources.groupCollection else sources.userspaceCollection

/-- The counters of a scope, which depend on the availability of the events
only. -/
def countersOf (scope : MetricScope) : Except EventFailure CounterCollection :=
  (sources.collection scope.isGroup).map
    (if scope.isGroup then CounterComposer.groupCountersFor scope.scope
      else CounterComposer.userspaceCountersFor scope.scope)

def Configured (ev : CounterEvent) : Prop :=
  ∃ isGroup collection, sources.collection isGroup = .ok collection ∧
    ev ∈ collection.events

end CounterSources

namespace CounterComposer

/-- What has been collected is what the configuration yields. -/
structure Agrees (sources : CounterSources) (c : CounterComposer) : Prop where
  group : ∀ collection, c.groupCounters = some collection →
    sources.groupCollection = .ok collection
  userspace : ∀ collection, c.userspaceCounters = some collection →
    sources.userspaceCollection = .ok collection

variable {sources : CounterSources} {c next : CounterComposer}
  {collection : CounterCollection}

theorem agrees_init : Agrees sources init where
  group _ none := by cases none
  userspace _ none := by cases none

theorem emplaceGroupCounters_spec (agrees : c.Agrees sources)
    (emplaced : c.emplaceGroupCounters sources = .ok (next, collection)) :
    next.Agrees sources ∧ sources.groupCollection = .ok collection := by
  unfold emplaceGroupCounters at emplaced
  cases known : c.groupCounters with
  | some old =>
      rw [known] at emplaced
      cases emplaced
      exact ⟨agrees, agrees.group collection known⟩
  | none =>
      rw [known] at emplaced
      cases collected : sources.groupCollection with
      | error thrown =>
          rw [collected] at emplaced
          cases emplaced
      | ok fresh =>
          rw [collected] at emplaced
          cases emplaced
          refine ⟨⟨?_, agrees.userspace⟩, rfl⟩
          rintro other ⟨⟩
          exact collected

theorem emplaceUserspaceCounters_spec (agrees : c.Agrees sources)
    (emplaced : c.emplaceUserspaceCounters sources = .ok (next, collection)) :
    next.Agrees sources ∧ sources.userspaceCollection = .ok collection := by
  unfold emplaceUserspaceCounters at emplaced
  cases known : c.userspaceCounters with
  | some old =>
      rw [known] at emplaced
      cases emplaced
      exact ⟨agrees, agrees.userspace collection known⟩
  | none =>
      rw [known] at emplaced
      cases collected : sources.userspaceCollection with
      | error thrown =>
          rw [collected] at emplaced
          cases emplaced
      | ok fresh =>
          rw [collected] at emplaced
          cases emplaced
          refine ⟨⟨agrees.group, ?_⟩, rfl⟩
          rintro other ⟨⟩
          exact collected

/-- A scope gets its counters, whatever has been asked for before. -/
theorem countersFor_spec {scope : MetricScope} (agrees : c.Agrees sources)
    (composed : c.countersFor sources scope = .ok (next, collection)) :
    next.Agrees sources ∧ sources.countersOf scope = .ok collection := by
  obtain ⟨isGroup, scope⟩ := scope
  cases isGroup with
  | true =>
      rw [countersFor, if_pos rfl] at composed
      rcases emplaced : c.emplaceGroupCounters sources with
        thrown | ⟨composer, whole⟩
      · rw [emplaced] at composed
        cases composed
      · rw [emplaced] at composed
        cases composed
        obtain ⟨kept, collected⟩ := emplaceGroupCounters_spec agrees emplaced
        refine ⟨kept, ?_⟩
        change (sources.groupCollection).map _ = _
        rw [collected]
        rfl
  | false =>
      rw [countersFor, if_neg Bool.false_ne_true] at composed
      rcases emplaced : c.emplaceUserspaceCounters sources with
        thrown | ⟨composer, whole⟩
      · rw [emplaced] at composed
        cases composed
      · rw [emplaced] at composed
        cases composed
        obtain ⟨kept, collected⟩ := emplaceUserspaceCounters_spec agrees emplaced
        refine ⟨kept, ?_⟩
        change (sources.userspaceCollection).map _ = _
        rw [collected]
        rfl

theorem mem_groupCountersFor {scope : ExecutionScope} {ev : CounterEvent}
    (member : ev ∈ (groupCountersFor scope collection).events) :
    ev ∈ collection.events := by
  unfold groupCountersFor at member
  split_ifs at member with empty
  · cases member
  · cases leader : collection.leader with
    | none =>
        rw [leader] at member
        cases member
    | some first =>
        rw [leader] at member
        dsimp only at member
        split_ifs at member
        · rw [CounterCollection.events, leader]
          rcases List.mem_cons.mp member with rfl | inside
          · exact List.mem_cons_self
          · exact List.mem_cons_of_mem _ (List.mem_of_mem_filter inside)
        · cases member

theorem mem_userspaceCountersFor {scope : ExecutionScope} {ev : CounterEvent}
    (member : ev ∈ (userspaceCountersFor scope collection).events) :
    ev ∈ collection.events :=
  List.mem_append_right _ (List.mem_of_mem_filter member)

theorem groupCountersFor_events {scope : ExecutionScope}
    (none : (groupCountersFor scope collection).leader = none) :
    (groupCountersFor scope collection).events = [] := by
  unfold groupCountersFor at none ⊢
  split_ifs at none ⊢ with empty
  · rfl
  · cases leader : collection.leader with
    | none => rfl
    | some first =>
        rw [leader] at none
        dsimp only at none ⊢
        split_ifs at none ⊢
        rfl

end CounterComposer

namespace CounterSources

variable {sources : CounterSources} {scope : MetricScope}
  {collection : CounterCollection}

theorem configured_of_mem (composed : sources.countersOf scope = .ok collection)
    {ev : CounterEvent} (member : ev ∈ collection.events) :
    sources.Configured ev := by
  unfold countersOf at composed
  cases whole : sources.collection scope.isGroup with
  | error thrown =>
      rw [whole] at composed
      cases composed
  | ok all =>
      rw [whole] at composed
      obtain rfl := Except.ok.inj composed
      refine ⟨scope.isGroup, all, whole, ?_⟩
      split_ifs at member
      · exact CounterComposer.mem_groupCountersFor member
      · exact CounterComposer.mem_userspaceCountersFor member

end CounterSources

/-- A member for an event of the configuration with the attributes of this
one. -/
def CounterSources.Names (sources : CounterSources) (ev : CounterEvent)
    (member : MetricMember) : Prop :=
  ∃ other, sources.Configured other ∧ other.bytes = ev.bytes ∧
    member = other.member

/-- The members at the end of a class. -/
def CounterCollection.times (collection : CounterCollection) :
    List MetricMember :=
  if collection.leader.isSome then [enabledMember, runningMember] else []

namespace MetricRegistry

variable {ρ σ η γ θ : Type} (registry : MetricRegistry ρ σ η γ θ)

/-- The members of a class: those registered for the events, and the times. -/
def Describes (d : MetricDefinitions ρ σ γ) (collection : CounterCollection)
    (members : List η) : Prop :=
  ∃ own times, members = own ++ times ∧
    times.map registry.member = collection.times ∧
    List.Forall₂ (fun ev member => registry.events.find d.events ev = some member)
      collection.events own

/-- The members that have been registered so far are named right. -/
structure MembersSound (sources : CounterSources)
    (d : MetricDefinitions ρ σ γ) : Prop where
  events : ∀ ev member, registry.events.find d.events ev = some member →
    sources.Names ev (registry.member member)
  enabled : ∀ member, registry.names.find d.names "time_enabled" = some member →
    registry.member member = enabledMember
  running : ∀ member, registry.names.find d.names "time_running" = some member →
    registry.member member = runningMember

/-- What is defined after any calls. -/
structure Sound (sources : CounterSources) (d : MetricDefinitions ρ σ γ) :
    Prop where
  members : registry.MembersSound sources d
  classes : ∀ collection metricClass,
    registry.classes.find d.classes collection = some metricClass →
      registry.Describes d collection
        (registry.classes.members d.classes metricClass)

/-- Nothing has been defined that counters use. -/
structure Unused (d : MetricDefinitions ρ σ γ) : Prop where
  events : ∀ ev, registry.events.find d.events ev = none
  enabled : registry.names.find d.names "time_enabled" = none
  running : registry.names.find d.names "time_running" = none
  classes : ∀ collection, registry.classes.find d.classes collection = none

/-- Members have been added to one class, and everything that was registered is
still there. -/
structure Adds (collection : CounterCollection) (metricClass : θ)
    (d next : MetricDefinitions ρ σ γ) (added : List η) : Prop where
  events : registry.events.Extends d.events next.events
  found : ∀ other, registry.classes.find next.classes other =
    registry.classes.find d.classes other
  own : registry.classes.members next.classes metricClass =
    registry.classes.members d.classes metricClass ++ added
  others : ∀ other otherClass,
    registry.classes.find d.classes other = some otherClass →
      ¬ KeyOrder.Equivalent other collection →
        registry.classes.members next.classes otherClass =
          registry.classes.members d.classes otherClass

variable {registry} {sources : CounterSources}
  {d middle next : MetricDefinitions ρ σ γ}
  {collection other : CounterCollection} {metricClass : θ} {member : η}
  {members added later : List η}

theorem Unused.sound (unused : registry.Unused d) :
    registry.Sound sources d where
  members :=
    { events := by simp [unused.events]
      enabled := by simp [unused.enabled]
      running := by simp [unused.running] }
  classes := by simp [unused.classes]

theorem Describes.mono (describes : registry.Describes d collection members)
    (kept : registry.events.Extends d.events next.events) :
    registry.Describes next collection members := by
  obtain ⟨own, times, split, last, registered⟩ := describes
  exact ⟨own, times, split, last, registered.imp fun ev member found =>
    kept ev member found⟩

theorem Describes.congr (lawful : registry.Lawful)
    (describes : registry.Describes d collection members)
    (equivalent : KeyOrder.Equivalent other collection) :
    registry.Describes d other members := by
  obtain ⟨own, last, split, timed, registered⟩ := describes
  obtain ⟨leaders, counters⟩ := CounterCollection.equivalent_iff.mp equivalent
  have same : KeyOrder.EquivalentPaths other.events collection.events := by
    unfold CounterCollection.events
    generalize other.leader = left at leaders
    generalize collection.leader = right at leaders
    cases leaders with
    | none => exact counters
    | some both => exact .cons both counters
  have times : other.times = collection.times := by
    unfold CounterCollection.times
    generalize other.leader = left at leaders
    generalize collection.leader = right at leaders
    cases leaders with
    | none => rfl
    | some _ => rfl
  refine ⟨own, last, split, times ▸ timed, ?_⟩
  clear split timed
  generalize other.events = lefts at same
  generalize collection.events = rights at same registered
  induction registered generalizing lefts with
  | nil =>
      cases same
      exact .nil
  | cons found _ ih =>
      cases same with
      | cons both rest =>
          refine .cons ?_ (ih _ rest)
          rw [lawful.events.find_congr d.events both]
          exact found

theorem Adds.trans (first : registry.Adds collection metricClass d middle added)
    (second : registry.Adds collection metricClass middle next later) :
    registry.Adds collection metricClass d next (added ++ later) where
  events := first.events.trans second.events
  found other := (second.found other).trans (first.found other)
  own := by rw [second.own, first.own, List.append_assoc]
  others other otherClass there apart := by
    rw [second.others other otherClass ((first.found other).trans there) apart,
      first.others other otherClass there apart]

theorem adds_addMember (lawful : registry.Lawful)
    (found : registry.classes.find d.classes collection = some metricClass)
    (same : middle.classes = d.classes)
    (kept : registry.events.Extends d.events middle.events) (member : η) :
    registry.Adds collection metricClass d
      (registry.addMember metricClass member middle) [member] where
  events := kept
  found other := by
    rw [addMember, same]
    exact lawful.classes.find_addMember member other found
  own := by
    rw [addMember, same]
    exact lawful.classes.members_addMember member found
  others other otherClass there apart := by
    rw [addMember, same]
    exact lawful.classes.members_addMember_of_ne member found there apart

theorem addEvents_spec (lawful : registry.Lawful) {evs : List CounterEvent}
    (sound : registry.MembersSound sources d)
    (configured : ∀ ev ∈ evs, sources.Configured ev)
    (found : registry.classes.find d.classes collection = some metricClass) :
    registry.MembersSound sources (registry.addEvents metricClass evs d) ∧
    ∃ own, registry.Adds collection metricClass d
        (registry.addEvents metricClass evs d) own ∧
      List.Forall₂ (fun ev member => registry.events.find
        (registry.addEvents metricClass evs d).events ev = some member) evs
        own := by
  induction evs generalizing d with
  | nil =>
      refine ⟨sound, [], ⟨.refl, fun _ => rfl, ?_, fun _ _ _ _ => rfl⟩, .nil⟩
      exact (List.append_nil _).symm
  | cons ev evs ih =>
      let emplaced := registry.events.emplace d.events ev ev.member
      have kept : registry.events.Extends d.events emplaced.2 :=
        lawful.events.extends_emplace d.events ev ev.member
      have adds := adds_addMember lawful found
        (show ({ d with events := emplaced.2 } : MetricDefinitions ρ σ γ).classes =
          d.classes from rfl) kept emplaced.1
      have soundNext : registry.MembersSound sources
          { d with events := emplaced.2 } := by
        refine ⟨?_, sound.enabled, sound.running⟩
        intro other member there
        rcases lawful.events.find_emplace_cases there with
          old | ⟨absent, same, rfl⟩
        · exact sound.events other member old
        · rw [lawful.member_event _ absent]
          exact ⟨ev, configured ev List.mem_cons_self,
            (CounterEvent.equivalent_iff.mp same).symm, rfl⟩
      obtain ⟨soundLast, own, rest, registered⟩ :=
        ih (d := registry.addMember metricClass emplaced.1
            { d with events := emplaced.2 })
          ⟨soundNext.events, soundNext.enabled, soundNext.running⟩
          (fun other member => configured other (List.mem_cons_of_mem ev member))
          ((adds.found collection).trans found)
      refine ⟨soundLast, emplaced.1 :: own, adds.trans rest,
        .cons ?_ registered⟩
      exact rest.events ev emplaced.1
        (lawful.events.find_emplace_self d.events ev ev.member)

theorem addTimes_spec (lawful : registry.Lawful)
    (sound : registry.MembersSound sources d)
    (found : registry.classes.find d.classes collection = some metricClass) :
    registry.MembersSound sources (registry.addTimes metricClass d) ∧
    (registry.addTimes metricClass d).events = d.events ∧
    ∃ times, registry.Adds collection metricClass d
        (registry.addTimes metricClass d) times ∧
      times.map registry.member = [enabledMember, runningMember] := by
  let enabled := registry.names.emplace d.names "time_enabled" enabledMember
  let running := registry.names.emplace enabled.2 "time_running" runningMember
  have apart : ¬ KeyOrder.Equivalent "time_enabled" "time_running" := by
    rw [KeyOrder.equivalent_string]
    decide
  have soundEnabled : ∀ member,
      registry.names.find enabled.2 "time_enabled" = some member →
        registry.member member = enabledMember := by
    intro member there
    rcases lawful.names.find_emplace_cases there with old | ⟨absent, _, rfl⟩
    · exact sound.enabled member old
    · exact lawful.member_name _ absent
  have soundRunning : ∀ member,
      registry.names.find running.2 "time_running" = some member →
        registry.member member = runningMember := by
    intro member there
    rcases lawful.names.find_emplace_cases there with old | ⟨absent, _, rfl⟩
    · rcases lawful.names.find_emplace_cases old with older | ⟨_, same, _⟩
      · exact sound.running member older
      · exact absurd same.symm apart
    · exact lawful.member_name _ absent
  have soundBoth : ∀ member,
      registry.names.find running.2 "time_enabled" = some member →
        registry.member member = enabledMember := by
    intro member there
    rcases lawful.names.find_emplace_cases there with old | ⟨_, same, _⟩
    · exact soundEnabled member old
    · exact absurd same apart
  let middle := registry.addMember metricClass enabled.1
    { d with names := enabled.2 }
  have first : registry.Adds collection metricClass d middle [enabled.1] :=
    adds_addMember lawful found
      (show ({ d with names := enabled.2 } : MetricDefinitions ρ σ γ).classes =
        d.classes from rfl) .refl enabled.1
  have second : registry.Adds collection metricClass middle
      (registry.addTimes metricClass d) [running.1] :=
    adds_addMember lawful ((first.found collection).trans found)
      (show ({ middle with names := running.2 } :
        MetricDefinitions ρ σ γ).classes = middle.classes from rfl) .refl
      running.1
  refine ⟨⟨sound.events, soundBoth, soundRunning⟩, rfl,
    [enabled.1, running.1], first.trans second, ?_⟩
  rw [List.map_cons, List.map_singleton,
    soundEnabled _ (lawful.names.find_emplace_self _ _ _),
    soundRunning _ (lawful.names.find_emplace_self _ _ _)]

/-- A class that has just been made and filled is described, and the others are
as they were. -/
theorem Sound.define (lawful : registry.Lawful)
    (sound : registry.Sound sources d)
    (absent : registry.classes.find d.classes collection = none)
    (membersSound : registry.MembersSound sources next)
    (adds : registry.Adds collection
      (registry.classes.emplace d.classes collection ()).1
      { d with classes := (registry.classes.emplace d.classes collection ()).2 }
      next members)
    (describes : registry.Describes next collection members) :
    registry.Sound sources next ∧ registry.classes.members next.classes
      (registry.classes.emplace d.classes collection ()).1 = members := by
  have own : registry.classes.members next.classes
      (registry.classes.emplace d.classes collection ()).1 = members := by
    rw [adds.own]
    simp only [lawful.classes.members_emplace () absent, List.nil_append]
  refine ⟨⟨membersSound, ?_⟩, own⟩
  intro other otherClass there
  rw [adds.found] at there
  rcases lawful.classes.interns.find_emplace_cases there with
    old | ⟨_, same, rfl⟩
  · have apart : ¬ KeyOrder.Equivalent other collection := by
      intro same
      rw [lawful.classes.interns.find_congr d.classes same, absent] at old
      cases old
    rw [adds.others other otherClass there apart]
    simp only [lawful.classes.members_emplace_of_find () absent old]
    exact (sound.classes other otherClass old).mono adds.events
  · rw [own]
    exact describes.congr lawful same

end MetricRegistry

namespace MetricState

variable {ρ σ η γ θ : Type} {registry : MetricRegistry ρ σ η γ θ}
  {sources : CounterSources} {scope : MetricScope} {s : MetricState ρ σ γ}

structure Sound (registry : MetricRegistry ρ σ η γ θ) (sources : CounterSources)
    (s : MetricState ρ σ γ) : Prop where
  composer : s.composer.Agrees sources
  definitions : registry.Sound sources s.definitions

theorem leader_of_userspace {collection : CounterCollection}
    (composed : sources.countersOf scope = .ok collection)
    (userspace : scope.isGroup = false) : collection.leader = none := by
  unfold CounterSources.countersOf at composed
  rw [userspace] at composed
  cases whole : sources.collection false with
  | error thrown =>
      rw [whole] at composed
      cases composed
  | ok all =>
      rw [whole] at composed
      cases composed
      rfl

theorem events_of_group {collection : CounterCollection}
    (composed : sources.countersOf scope = .ok collection)
    (group : scope.isGroup = true) (noLeader : collection.leader = none) :
    collection.events = [] := by
  unfold CounterSources.countersOf at composed
  rw [group] at composed
  cases whole : sources.collection true with
  | error thrown =>
      rw [whole] at composed
      cases composed
  | ok all =>
      rw [whole] at composed
      obtain rfl := Except.ok.inj composed
      exact CounterComposer.groupCountersFor_events noLeader

/-- What a new class is filled with describes the collection. -/
theorem fill_spec (lawful : registry.Lawful) {collection : CounterCollection}
    (composed : sources.countersOf scope = .ok collection)
    (present : ¬ (scope.isGroup && collection.leader.isNone) = true)
    {d filled next : MetricDefinitions ρ σ γ} {metricClass : θ}
    (sound : registry.MembersSound sources d)
    (found : registry.classes.find d.classes collection = some metricClass)
    (withEvents : filled = registry.addEvents metricClass
      (if scope.isGroup then collection.events else collection.counters) d)
    (withTimes : next =
      if scope.isGroup then registry.addTimes metricClass filled else filled) :
    registry.MembersSound sources next ∧
      ∃ members, registry.Adds collection metricClass d next members ∧
        registry.Describes next collection members := by
  have configured : ∀ ev ∈ collection.events, sources.Configured ev :=
    fun ev member => CounterSources.configured_of_mem composed member
  obtain ⟨soundEvents, own, adds, registered⟩ :=
    MetricRegistry.addEvents_spec lawful sound configured found
  cases group : scope.isGroup with
  | true =>
      rw [group, if_pos rfl] at withEvents withTimes
      rw [group, Bool.true_and, Option.isNone_iff_eq_none] at present
      subst withEvents withTimes
      obtain ⟨soundTimes, sameEvents, times, addsTimes, timed⟩ :=
        MetricRegistry.addTimes_spec lawful soundEvents
          ((adds.found collection).trans found)
      have last : times.map registry.member = collection.times := by
        rw [timed, CounterCollection.times,
          if_pos (Option.isSome_iff_ne_none.mpr present)]
      exact ⟨soundTimes, own ++ times, adds.trans addsTimes, own, times, rfl,
        last, sameEvents.symm ▸ registered⟩
  | false =>
      have noLeader := leader_of_userspace composed group
      have all : collection.counters = collection.events := by
        rw [CounterCollection.events, noLeader]
        rfl
      have noTimes : collection.times = [] := by
        rw [CounterCollection.times, noLeader]
        rfl
      rw [group, if_neg Bool.false_ne_true] at withEvents withTimes
      rw [all] at withEvents
      subst withEvents withTimes
      exact ⟨soundEvents, own, adds, own, [], (List.append_nil own).symm,
        noTimes.symm, registered⟩

theorem perfMetricClass_spec (lawful : registry.Lawful) (scope : MetricScope)
    (sound : s.Sound registry sources) :
    (registry.perfMetricClass sources scope s).1.Sound registry sources ∧
    ∀ metricClass,
      (registry.perfMetricClass sources scope s).2 = .ok metricClass →
      ∃ collection, sources.countersOf scope = .ok collection ∧
        registry.Describes (registry.perfMetricClass sources scope s).1.definitions
          collection (registry.membersOf metricClass
            (registry.perfMetricClass sources scope s).1) := by
  unfold MetricRegistry.perfMetricClass
  rcases asked : s.composer.countersFor sources scope with
    thrown | ⟨composer, collection⟩
  · exact ⟨sound, fun metricClass threw => by cases threw⟩
  obtain ⟨agrees, composed⟩ :=
    CounterComposer.countersFor_spec sound.composer asked
  dsimp only
  cases known : registry.classes.find s.definitions.classes collection with
  | some metricClass =>
      refine ⟨⟨agrees, sound.definitions⟩, ?_⟩
      rintro other ⟨⟩
      exact ⟨collection, composed,
        sound.definitions.classes collection metricClass known⟩
  | none =>
      dsimp only
      have made := lawful.classes.interns.find_emplace_self
        s.definitions.classes collection ()
      have membersSound : registry.MembersSound sources
          { s.definitions with classes :=
            (registry.classes.emplace s.definitions.classes collection ()).2 } :=
        ⟨sound.definitions.members.events, sound.definitions.members.enabled,
          sound.definitions.members.running⟩
      by_cases missing : (scope.isGroup && collection.leader.isNone) = true
      · -- The class stays without members.
        rw [if_pos missing]
        obtain ⟨group, noLeader⟩ := Bool.and_eq_true_iff.mp missing
        rw [Option.isNone_iff_eq_none] at noLeader
        have noTimes : collection.times = [] := by
          rw [CounterCollection.times, noLeader]
          rfl
        have described := sound.definitions.define lawful known membersSound
          ⟨.refl, fun _ => rfl, (List.append_nil _).symm, fun _ _ _ _ => rfl⟩
          ⟨[], [], rfl, noTimes.symm, by
            rw [events_of_group composed group noLeader]
            exact .nil⟩
        refine ⟨⟨agrees, described.1⟩, ?_⟩
        intro metricClass threw
        cases threw
      · rw [if_neg missing]
        obtain ⟨soundNext, members, adds, describes⟩ :=
          fill_spec lawful composed missing membersSound made rfl rfl
        have described :=
          sound.definitions.define lawful known soundNext adds describes
        refine ⟨⟨agrees, described.1⟩, ?_⟩
        rintro metricClass ⟨⟩
        refine ⟨collection, composed, described.1.classes collection _ ?_⟩
        exact (adds.found collection).trans made

end MetricState

end Lo2s
