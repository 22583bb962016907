import Lo2s.EventResolver

/-!
# Lookups before and after the first one

Once a name is in the map, the answers stay and agree with each other.  The
first lookup of a name that no source offers throws something that is no
`InvalidEvent`, which neither `has_event` nor its callers are prepared for.
-/

namespace Lo2s

open Foundation

theorem failure_of_constructed {event : Except Failure EventAttr}
    {thrown : EventFailure} (failed : constructed event = .error thrown) :
    ∃ failure, thrown = .failure failure := by
  cases event with
  | ok ev => cases failed
  | error failure => exact ⟨failure, (Except.error.inj failed).symm⟩

namespace EventSources

/-- The event that libpfm has for a name. -/
def pfmEvent? (sources : EventSources) (name : String) :
    Option (Except Failure EventAttr) :=
  (sources.pfm.bind fun encoding => encoding name).map fun config =>
    EventAttr.predefined sources.system name config []

/-- The event that a name stands for, from the first source that has it, unless
the constructor of an event that is made on the way fails. -/
def offered? (sources : EventSources) (name : String) : Option EventAttr :=
  match rawDigits? name with
  | some digits =>
      match sources.rawEvent name digits, sources.pfmEvent? name with
      | .error _, _ => none
      | .ok _, some (.error _) => none
      | .ok event, _ => some event
  | none =>
      match sources.pfmEvent? name with
      | some event => event.toOption
      | none =>
          match sources.pmuReadEvent name with
          | .ok event => some event
          | .error (.failure _) => none
          | .error (.invalidEvent _) => (sources.sysfsEvent name).toOption

end EventSources

namespace EventResolver

/-- A name that has been looked up, or that some source offers. -/
def Known (r : EventResolver) (name : String) : Prop :=
  r.eventMap.lookup name ≠ none ∨ r.sources.offered? name ≠ none

/-- The resolver with one more entry. -/
def remember (name : String) (event : Option EventAttr) (r : EventResolver) :
    EventResolver :=
  { r with eventMap := r.eventMap.insertIfNew name event }

section

variable {r : EventResolver} {name : String}

theorem emplace_new (new : r.eventMap.lookup name = none) (event : EventAttr) :
    r.emplace name event = (r.remember name (some event), some event) := by
  rw [emplace, FiniteMap.lookup_insertIfNew, if_pos rfl, new]
  rfl

theorem lookup_remember (event : Option EventAttr) (other : String) :
    (r.remember name event).eventMap.lookup other =
      if other = name then some ((r.eventMap.lookup name).getD event)
      else r.eventMap.lookup other :=
  FiniteMap.lookup_insertIfNew name other event r.eventMap

theorem emplace_known {old : Option EventAttr}
    (found : r.eventMap.lookup name = some old) (event : EventAttr) :
    r.emplace name event = (r, old) := by
  rw [emplace, FiniteMap.insertIfNew_of_lookup found, found]
  rfl

theorem lookup_remember_self (new : r.eventMap.lookup name = none)
    (event : Option EventAttr) :
    (r.remember name event).eventMap.lookup name = some event := by
  rw [lookup_remember, if_pos rfl, new]
  rfl

theorem cachePfm_eq (res : Option EventAttr) :
    r.cachePfm name res =
      match r.sources.pfmEvent? name with
      | none => .ok (r, res)
      | some (.ok event) => .ok (r.emplace name event)
      | some (.error failure) => .error (.failure failure) := by
  unfold cachePfm EventSources.pfmEvent?
  cases r.sources.pfm with
  | none => rfl
  | some encoding =>
      simp only [EventSources.pfm4ReadEvent, Option.bind_some]
      cases encoding name with
      | none => rfl
      | some config =>
          simp only [Option.map_some]
          cases EventAttr.predefined r.sources.system name config [] <;> rfl

theorem cachePmu_new (new : r.eventMap.lookup name = none) :
    r.cachePmu name none =
      match r.sources.pmuReadEvent name with
      | .ok event => .ok (r.remember name (some event), some event)
      | .error (.invalidEvent _) => .ok (r, none)
      | .error (.failure failure) => .error (.failure failure) := by
  rw [cachePmu]
  cases r.sources.pmuReadEvent name with
  | ok event =>
      show Except.ok (r.emplace name event) = _
      rw [emplace_new new]
  | error thrown => cases thrown <;> rfl

theorem cacheEvent_offered (new : r.eventMap.lookup name = none)
    {event : EventAttr} (offered : r.sources.offered? name = some event) :
    r.cacheEvent name = (r.remember name (some event), .ok event) := by
  unfold EventSources.offered? at offered
  unfold cacheEvent cacheRaw
  cases matched : rawDigits? name with
  | some digits =>
      simp only [matched] at offered
      cases raw : r.sources.rawEvent name digits with
      | error thrown =>
          rw [raw] at offered
          cases offered
      | ok other =>
          have known := lookup_remember_self new (some other)
          have sources : (r.remember name (some other)).sources = r.sources :=
            rfl
          simp only [raw, emplace_new new, cachePfm_eq, sources]
          rw [raw] at offered
          -- libpfm changes nothing where there is an event already.
          rcases pfm : r.sources.pfmEvent? name with _ | failure | config
          · rw [pfm] at offered
            cases offered
            rfl
          · rw [pfm] at offered
            cases offered
          · rw [pfm] at offered
            cases offered
            simp only [emplace_known known]
            rfl
  | none =>
      simp only [matched] at offered
      simp only [cachePfm_eq]
      rcases pfm : r.sources.pfmEvent? name with _ | failure | config
      · rw [pfm] at offered
        simp only [cachePmu_new new]
        rcases read : r.sources.pmuReadEvent name with (what | failure) | other
        · rw [read] at offered
          cases files : r.sources.sysfsEvent name with
          | error thrown =>
              rw [files] at offered
              cases offered
          | ok other =>
              rw [files] at offered
              cases offered
              simp only [cacheSysfs, files, emplace_new new]
        · rw [read] at offered
          cases offered
        · rw [read] at offered
          cases offered
          rfl
      · rw [pfm] at offered
        cases offered
      · rw [pfm] at offered
        cases offered
        simp only [emplace_new new]
        rfl

/-- The first lookup of a name that no source offers throws no `InvalidEvent`;
at most a raw event has been remembered then. -/
theorem cacheEvent_unknown (new : r.eventMap.lookup name = none)
    (unknown : r.sources.offered? name = none) :
    ∃ next thrown, r.cacheEvent name = (next, .error thrown) ∧
      (next = r ∨ ∃ entry, next = r.remember name entry ∧
        ∀ event ∈ entry, ∃ digits,
          r.sources.rawEvent name digits = .ok event) ∧
      ∀ what, thrown ≠ .invalidEvent what := by
  unfold EventSources.offered? at unknown
  unfold cacheEvent cacheRaw
  cases matched : rawDigits? name with
  | some digits =>
      simp only [matched] at unknown
      cases raw : r.sources.rawEvent name digits with
      | error thrown =>
          obtain ⟨failure, rfl⟩ := failure_of_constructed raw
          simp only [raw]
          exact ⟨_, _, rfl, .inl rfl, fun _ => EventFailure.noConfusion⟩
      | ok other =>
          have sources : (r.remember name (some other)).sources = r.sources :=
            rfl
          simp only [raw, emplace_new new, cachePfm_eq, sources]
          rw [raw] at unknown
          rcases pfm : r.sources.pfmEvent? name with _ | failure | config
          · rw [pfm] at unknown
            cases unknown
          · refine ⟨_, _, rfl, .inr ⟨some other, rfl, ?_⟩,
              fun _ => EventFailure.noConfusion⟩
            rintro event ⟨⟩
            exact ⟨digits, raw⟩
          · rw [pfm] at unknown
            cases unknown
  | none =>
      simp only [matched] at unknown
      simp only [cachePfm_eq]
      rcases pfm : r.sources.pfmEvent? name with _ | failure | config
      · rw [pfm] at unknown
        simp only [cachePmu_new new]
        rcases read : r.sources.pmuReadEvent name with (what | failure) | other
        · rw [read] at unknown
          rcases files : r.sources.sysfsEvent name with
            (what | failure) | other
          · simp only [cacheSysfs, files]
            exact ⟨_, _, rfl, .inr ⟨none, rfl, by simp⟩,
              fun _ => EventFailure.noConfusion⟩
          · simp only [cacheSysfs, files]
            exact ⟨_, _, rfl, .inl rfl, fun _ => EventFailure.noConfusion⟩
          · rw [files] at unknown
            cases unknown
        · exact ⟨_, _, rfl, .inl rfl, fun _ => EventFailure.noConfusion⟩
        · rw [read] at unknown
          cases unknown
      · exact ⟨_, _, rfl, .inl rfl, fun _ => EventFailure.noConfusion⟩
      · rw [pfm] at unknown
        cases unknown

/-- What the next lookup of a name is to find. -/
def stands (r : EventResolver) (name : String) : Option EventAttr :=
  match r.eventMap.lookup name with
  | some event => event
  | none => r.sources.offered? name

theorem stands_remember {event : EventAttr}
    (new : r.eventMap.lookup name = none)
    (offered : r.sources.offered? name = some event) (other : String) :
    (r.remember name (some event)).stands other = r.stands other := by
  unfold stands
  rw [lookup_remember, new]
  by_cases same : other = name
  · rw [if_pos same, same, new]
    exact offered.symm
  · rw [if_neg same]
    rfl

/-- Lookups of a known name answer with what stands for it, which stays. -/
theorem Known.getEventByName_spec (known : r.Known name) :
    ∃ next answer, r.getEventByName name = (next, answer) ∧
      (∀ other, next.stands other = r.stands other) ∧
      (match r.stands name with
        | some event => answer = .ok event
        | none => ∃ what, answer = .error (.invalidEvent what)) := by
  unfold EventResolver.getEventByName stands
  cases found : r.eventMap.lookup name with
  | some event =>
      cases event with
      | some event => exact ⟨r, _, rfl, fun _ => rfl, rfl⟩
      | none => exact ⟨r, _, rfl, fun _ => rfl, _, rfl⟩
  | none =>
      obtain ⟨event, offered⟩ := Option.ne_none_iff_exists'.mp
        (known.resolve_left (not_not_intro found))
      rw [cacheEvent_offered found offered, offered]
      exact ⟨_, _, rfl, stands_remember found offered, rfl⟩

theorem Known.hasEvent_spec (known : r.Known name) :
    ∃ next, r.hasEvent name = (next, .ok (r.stands name).isSome) ∧
      ∀ other, next.stands other = r.stands other := by
  unfold EventResolver.hasEvent stands
  cases found : r.eventMap.lookup name with
  | some event => exact ⟨r, rfl, fun _ => rfl⟩
  | none =>
      obtain ⟨event, offered⟩ := Option.ne_none_iff_exists'.mp
        (known.resolve_left (not_not_intro found))
      rw [cacheEvent_offered found offered, offered]
      exact ⟨_, rfl, stands_remember found offered⟩

theorem Known.known_iff (known : r.Known name) (other : String) :
    (r.getEventByName name).1.Known other ↔ r.Known other := by
  unfold EventResolver.getEventByName
  cases found : r.eventMap.lookup name with
  | some event => cases event <;> exact Iff.rfl
  | none =>
      obtain ⟨event, offered⟩ := Option.ne_none_iff_exists'.mp
        (known.resolve_left (not_not_intro found))
      simp only [cacheEvent_offered found offered]
      unfold Known
      rw [lookup_remember]
      by_cases same : other = name
      · rw [if_pos same, same]
        exact iff_of_true (.inl (Option.some_ne_none _)) known
      · rw [if_neg same]
        rfl

/-- A name that is not known makes both lookups throw something else. -/
theorem lookups_unknown (unknown : ¬ r.Known name) :
    ∃ next thrown, r.getEventByName name = (next, .error thrown) ∧
      r.hasEvent name = (next, .error thrown) ∧
      (next = r ∨ ∃ entry, next = r.remember name entry ∧
        ∀ event ∈ entry, ∃ digits,
          r.sources.rawEvent name digits = .ok event) ∧
      ∀ what, thrown ≠ .invalidEvent what := by
  unfold Known at unknown
  push Not at unknown
  obtain ⟨new, absent⟩ := unknown
  obtain ⟨next, thrown, result, kept, other⟩ := cacheEvent_unknown new absent
  refine ⟨next, thrown, ?_, ?_, kept, other⟩
  · rw [EventResolver.getEventByName, new]
    exact result
  · rw [EventResolver.hasEvent, new]
    cases thrown with
    | invalidEvent what => exact absurd rfl (other what)
    | failure failure =>
        simp only [result]

end

end EventResolver

theorem EventResolver.hasEvent_resolver (r : EventResolver) (name : String) :
    (r.hasEvent name).1 = (r.getEventByName name).1 := by
  unfold EventResolver.hasEvent EventResolver.getEventByName
  cases r.eventMap.lookup name with
  | some event => cases event <;> rfl
  | none =>
      rcases cached : r.cacheEvent name with ⟨next, thrown | event⟩
      · cases thrown <;> rfl
      · rfl

theorem EventResolver.init_spec {sources : EventSources} {r : EventResolver}
    (made : EventResolver.init sources = .ok r) :
    r.sources = sources ∧
      ∀ name, name ∉ (predefEvents ++ cacheEvents).map Prod.fst →
        r.eventMap.lookup name = none := by
  refine invariant_of_run (fun events (reached : EventResolver) =>
    reached.sources = sources ∧ ∀ name, name ∉ events.map Prod.fst →
      reached.eventMap.lookup name = none) ⟨rfl, fun _ _ => rfl⟩ ?_ made
  intro earlier reached event next holds stepped
  obtain ⟨same, absent⟩ := holds
  unfold emplacePredefined at stepped
  split at stepped
  · cases stepped
  · cases stepped
    refine ⟨same, fun name other => ?_⟩
    rw [List.map_append, List.mem_append, not_or] at other
    have apart : name ≠ event.1 := fun equal =>
      other.2 (List.mem_singleton.mpr equal)
    rw [emplace, FiniteMap.lookup_insertIfNew, if_neg apart]
    exact absent name other.1

/-- A call of the resolver. -/
inductive EventLookup where
  | hasEvent (name : String)
  | getEventByName (name : String)
  deriving DecidableEq, Repr

def EventLookup.name : EventLookup → String
  | .hasEvent name => name
  | .getEventByName name => name

/-- The resolver after some calls. -/
def EventResolver.after (r : EventResolver) (calls : List EventLookup) :
    EventResolver :=
  calls.foldl
    (fun r call =>
      match call with
      | .hasEvent name => (r.hasEvent name).1
      | .getEventByName name => (r.getEventByName name).1) r

/-- A call and what it returns or throws. -/
inductive LookupAnswer where
  | hasEvent (name : String) (answer : Except EventFailure Bool)
  | getEventByName (name : String) (answer : Except EventFailure EventAttr)

/-- A resolver, and its answers so far. -/
structure LookupSession where
  resolver : EventResolver
  answers : List LookupAnswer

namespace LookupSession

/-- A call, which may throw but leaves the resolver in use. -/
def step (s : LookupSession) : EventLookup → Except Failure LookupSession
  | .hasEvent name =>
      let (resolver, answer) := s.resolver.hasEvent name
      .ok ⟨resolver, s.answers ++ [.hasEvent name answer]⟩
  | .getEventByName name =>
      let (resolver, answer) := s.resolver.getEventByName name
      .ok ⟨resolver, s.answers ++ [.getEventByName name answer]⟩

/-- An answer is as it should be for the events that names stand for. -/
def Agrees (events : String → Option EventAttr) : LookupAnswer → Prop
  | .hasEvent name answer => answer = .ok (events name).isSome
  | .getEventByName name answer =>
      match events name with
      | some event => answer = .ok event
      | none => ∃ what, answer = .error (.invalidEvent what)

/-- All answers agree on which names stand for events. -/
def Uniform (s : LookupSession) : Prop :=
  ∃ events, ∀ answer ∈ s.answers, Agrees events answer

/-- Lookups are stable and fail uniformly exactly as long as every name that is
looked up is in the map or offered by some source. -/
theorem uniform_iff (resolver : EventResolver) (calls : List EventLookup) :
    Always step ⟨resolver, []⟩ (fun _ s => Uniform s) calls ↔
      EveryStep step ⟨resolver, []⟩
        (fun s call => s.resolver.Known call.name) calls := by
  refine always_iff
    (fun _ s => ∀ answer ∈ s.answers, Agrees s.resolver.stands answer)
    ?_ ?_ ?_ (fun _ member => absurd member List.not_mem_nil)
    (.of_forall (fun _ _ => trivial) _ calls)
  · exact fun _ s agree => ⟨s.resolver.stands, agree⟩
  · intro _ s call agree _ known
    cases call with
    | hasEvent name =>
        have known : s.resolver.Known name := known
        obtain ⟨next, result, same⟩ := known.hasEvent_spec
        refine ⟨_, rfl, ?_⟩
        show ∀ answer ∈ s.answers ++ [.hasEvent name
          (s.resolver.hasEvent name).2],
          Agrees (s.resolver.hasEvent name).1.stands answer
        rw [result, funext same]
        exact List.forall_mem_append.mpr
          ⟨agree, List.forall_mem_singleton.mpr rfl⟩
    | getEventByName name =>
        have known : s.resolver.Known name := known
        obtain ⟨next, found, result, same, agrees⟩ := known.getEventByName_spec
        refine ⟨_, rfl, ?_⟩
        show ∀ answer ∈ s.answers ++ [.getEventByName name
          (s.resolver.getEventByName name).2],
          Agrees (s.resolver.getEventByName name).1.stands answer
        rw [result, funext same]
        exact List.forall_mem_append.mpr
          ⟨agree, List.forall_mem_singleton.mpr agrees⟩
  · intro _ s call next _ _ stepped uniform
    by_contra unknown
    obtain ⟨events, agree⟩ := uniform
    obtain ⟨after, thrown, got, had, _, other⟩ :=
      EventResolver.lookups_unknown unknown
    cases call with
    | hasEvent name =>
        cases stepped
        have last := agree (.hasEvent name (s.resolver.hasEvent name).2)
          (List.mem_append_right _ (List.mem_singleton_self _))
        change s.resolver.hasEvent name = _ at had
        rw [had] at last
        cases last
    | getEventByName name =>
        cases stepped
        have last := agree
          (.getEventByName name (s.resolver.getEventByName name).2)
          (List.mem_append_right _ (List.mem_singleton_self _))
        change s.resolver.getEventByName name = _ at got
        rw [got, Agrees] at last
        cases stood : events name with
        | some event =>
            rw [stood] at last
            cases last
        | none =>
            rw [stood] at last
            obtain ⟨what, same⟩ := last
            exact other what (Except.error.inj same)

/-- A system without events. -/
def nothingOffered : EventSources where
  system := ⟨fun _ _ => false, [0]⟩
  pfm := none
  pmus := []
  sysfs name := .error (.invalid ("unknown PMU '" ++ name ++ "'"))

/-- The first two lookups of an unknown name throw, and later ones do not. -/
theorem unknown_event_throws :
    ∃ s thrown, run step ⟨⟨nothingOffered, ∅⟩, []⟩
        [.hasEvent "nosuch", .hasEvent "nosuch"] = .ok s ∧
      s.answers = [.hasEvent "nosuch" (.error (.failure thrown)),
        .hasEvent "nosuch" (.ok false)] ∧
      ¬ Uniform s := by
  refine ⟨_, _, rfl, rfl, fun uniform => ?_⟩
  obtain ⟨events, agree⟩ := uniform
  have first := agree _ List.mem_cons_self
  cases first

end LookupSession

end Lo2s
