import Lo2s.EventResolver

/-!
# Where an event is available

The constructors of events find out by trying in which scopes the kernel opens
an event.  CPUs are represented by the first one of the set of the event, so the
set must not be empty.  Where it has been determined by probing, it holds the
CPUs that accept the event before any retry has changed its attributes.
-/

namespace Lo2s

open Foundation

def perfTypeTracepoint : UInt32 := 2

/-- The arguments of the constructors: of a predefined event, of a raw event with
the number in its name, and of a tracepoint with the id read from its files. -/
inductive EventArguments where
  | predefined (name : String) (config : EventConfig) (cpus : List Int64)
  | raw (name : String) (config : UInt64)
  | tracepoint (name : String) (id : UInt64)

namespace EventArguments

/-- Constructors that determine the set of CPUs by probing. -/
def Probes : EventArguments → Prop
  | predefined _ _ cpus => cpus = []
  | raw _ _ => True
  | tracepoint _ _ => False

end EventArguments

namespace EventAttr

/-- The constructors; a tracepoint has no CPUs and is not tried again. -/
def construct (system : PerfSystem) : EventArguments → Except Failure EventAttr
  | .predefined name config cpus => EventAttr.predefined system name config cpus
  | .raw name config => EventAttr.raw system name config
  | .tracepoint name id =>
      (init name ⟨perfTypeTracepoint, id, 0⟩).updateAvailability system

section

variable {system : PerfSystem} {ev result : EventAttr}

theorem firstCpu_of_nil (empty : ev.cpus = []) :
    ev.firstCpu = .error .invalidAccess := by
  rw [firstCpu, empty]

theorem updateAvailability_of_ne_nil (nonempty : ev.cpus ≠ [])
    (system : PerfSystem) :
    ∃ result, ev.updateAvailability system = .ok result := by
  obtain ⟨cpu, rest, split⟩ := List.exists_cons_of_ne_nil nonempty
  have first : ev.firstCpu = .ok cpu := by rw [firstCpu, split]
  exact ⟨_, by rw [updateAvailability, first]⟩

theorem eventIsOpenable_of_ne_nil (nonempty : ev.cpus ≠ [])
    (system : PerfSystem) :
    ∃ result, ev.eventIsOpenable system = .ok result := by
  obtain ⟨once, updated⟩ := updateAvailability_of_ne_nil nonempty system
  rw [eventIsOpenable, updated]
  simp only
  split_ifs with unavailable
  · apply updateAvailability_of_ne_nil
    rw [updateAvailability_sets updated]
    exact nonempty
  · exact ⟨once, rfl⟩

theorem eventIsOpenable_of_nil (empty : ev.cpus = []) (system : PerfSystem) :
    ev.eventIsOpenable system = .error .invalidAccess := by
  rw [eventIsOpenable, updateAvailability, firstCpu_of_nil empty]

/-- Only the attributes decide where an event is available, and they are those
of the last attempt. -/
theorem isAvailableIn_updateAvailability
    (updated : ev.updateAvailability system = .ok result)
    {scope : ExecutionScope} (noCpu : scope.isCpu = false) :
    result.isAvailableIn scope = system.canOpen result.attr (.thread ⟨0⟩) := by
  have classified : result.isAvailableIn scope =
      if result.availability = .unavailable then false
      else decide (result.availability ≠ .systemMode) := by
    cases scope with
    | thread _ => rfl
    | process _ => rfl
    | cpu _ => cases noCpu
  rw [classified]
  unfold updateAvailability at updated
  cases first : ev.firstCpu with
  | error failure =>
      rw [first] at updated
      cases updated
  | ok cpu =>
      rw [first] at updated
      cases updated
      cases system.canOpen ev.attr (.thread ⟨0⟩) <;>
        cases system.canOpen ev.attr (.cpu cpu) <;> rfl

/-- The thread is asked about the attributes that the event ends with, also when
it has been tried again. -/
theorem isAvailableIn_eventIsOpenable
    (opened : ev.eventIsOpenable system = .ok result)
    {scope : ExecutionScope} (noCpu : scope.isCpu = false) :
    result.isAvailableIn scope = system.canOpen result.attr (.thread ⟨0⟩) := by
  unfold eventIsOpenable at opened
  cases updated : ev.updateAvailability system with
  | error failure =>
      rw [updated] at opened
      cases opened
  | ok once =>
      rw [updated] at opened
      simp only at opened
      split_ifs at opened
      · exact isAvailableIn_updateAvailability opened noCpu
      · cases opened
        exact isAvailableIn_updateAvailability updated noCpu

/-- Where the first CPU opens an event, it is not tried again, and it is then
available on the CPUs of its set. -/
theorem eventIsOpenable_of_firstCpu {first : Int64} {rest : List Int64}
    (split : ev.cpus = first :: rest)
    (opens : system.canOpen ev.attr (.cpu first) = true)
    (opened : ev.eventIsOpenable system = .ok result) :
    result.attr = ev.attr ∧
      ∀ cpu, result.isAvailableIn (.cpu cpu) = ev.cpus.contains cpu := by
  have begin : ev.firstCpu = .ok first := by rw [firstCpu, split]
  have listed : ∀ cpu, (ev.cpus.isEmpty || ev.cpus.contains cpu) =
      ev.cpus.contains cpu := by
    intro cpu
    rw [split]
    rfl
  unfold eventIsOpenable updateAvailability at opened
  simp only [begin, opens] at opened
  cases proc : system.canOpen ev.attr (.thread ⟨0⟩) with
  | false =>
      rw [proc] at opened
      cases opened
      exact ⟨rfl, listed⟩
  | true =>
      rw [proc] at opened
      cases opened
      exact ⟨rfl, listed⟩

end

end EventAttr

theorem mem_insertCpu {cpu other : Int64} {cpus : List Int64} :
    other ∈ insertCpu cpu cpus ↔ other = cpu ∨ other ∈ cpus := by
  induction cpus with
  | nil => rw [insertCpu, List.mem_cons]
  | cons first rest ih =>
      rw [insertCpu]
      split_ifs with before same
      · rw [List.mem_cons]
      · rw [same, List.mem_cons]
        exact or_self_left.symm
      · rw [List.mem_cons, ih, List.mem_cons]
        exact or_left_comm

theorem mem_cpuSet {cpu : Int64} {cpus : List Int64} :
    cpu ∈ cpuSet cpus ↔ cpu ∈ cpus := by
  induction cpus with
  | nil => exact Iff.rfl
  | cons first rest ih =>
      rw [List.mem_cons, ← ih]
      exact mem_insertCpu

namespace EventAttr

theorem mem_getCpuSetFor {system : PerfSystem} {ev : EventAttr} {cpu : Int64} :
    cpu ∈ ev.getCpuSetFor system ↔
      cpu ∈ system.cpus ∧ system.canOpen ev.attr (.cpu cpu) = true := by
  rw [getCpuSetFor, mem_cpuSet, List.mem_filter]

/-- The event with the CPUs that open it. -/
def probed (system : PerfSystem) (ev : EventAttr) : EventAttr :=
  { ev with cpus := ev.getCpuSetFor system }

theorem probed_ne_nil {system : PerfSystem} {ev : EventAttr} :
    (ev.probed system).cpus ≠ [] ↔
      ∃ cpu ∈ system.cpus, system.canOpen ev.attr (.cpu cpu) = true := by
  constructor
  · intro nonempty
    obtain ⟨cpu, member⟩ := List.exists_mem_of_ne_nil _ nonempty
    exact ⟨cpu, mem_getCpuSetFor.mp member⟩
  · rintro ⟨cpu, listed, opens⟩
    exact List.ne_nil_of_mem (mem_getCpuSetFor.mpr ⟨listed, opens⟩)

/-- A probed event is available on exactly the CPUs that open it. -/
theorem isAvailableIn_probed {system : PerfSystem} {ev result : EventAttr}
    (opened : (ev.probed system).eventIsOpenable system = .ok result)
    {cpu : Int64} (listed : cpu ∈ system.cpus) :
    result.isAvailableIn (.cpu cpu) = true ↔
      system.canOpen result.attr (.cpu cpu) = true := by
  cases split : (ev.probed system).cpus with
  | nil =>
      rw [eventIsOpenable_of_nil split] at opened
      cases opened
  | cons first rest =>
      -- The first of the probed CPUs opens the event, as all of them do.
      have opens : system.canOpen (ev.probed system).attr (.cpu first) = true := by
        have member : first ∈ ev.getCpuSetFor system := by
          change first ∈ (ev.probed system).cpus
          rw [split]
          exact List.mem_cons_self
        exact (mem_getCpuSetFor.mp member).2
      obtain ⟨attr, available⟩ := eventIsOpenable_of_firstCpu split opens opened
      rw [available, attr, List.contains_iff_mem]
      change cpu ∈ ev.getCpuSetFor system ↔ _
      rw [mem_getCpuSetFor, and_iff_right listed]
      rfl

/-- A constructor that probes comes to its end if a CPU opens the event. -/
theorem exists_predefined {system : PerfSystem} {name : String}
    {config : EventConfig} {cpu : Int64} (listed : cpu ∈ system.cpus)
    (opens : system.canOpen (init name config).attr (.cpu cpu) = true) :
    ∃ ev, predefined system name config [] = .ok ev :=
  eventIsOpenable_of_ne_nil (probed_ne_nil.mpr ⟨cpu, listed, opens⟩) system

end EventAttr

theorem EventResolver.exists_init {sources : EventSources} {cpu : Int64}
    (listed : cpu ∈ sources.system.cpus)
    (opens : ∀ attr, sources.system.canOpen attr (.cpu cpu) = true) :
    ∃ r, EventResolver.init sources = .ok r := by
  have emplaced : ∀ (r : EventResolver) (event : String × EventConfig),
      r.sources = sources →
        ∃ next, r.emplacePredefined event = .ok next ∧
          next.sources = sources := by
    intro r event same
    obtain ⟨ev, made⟩ := EventAttr.exists_predefined (same.symm ▸ listed)
      (same.symm ▸ opens (EventAttr.init event.1 event.2).attr)
    refine ⟨(r.emplace event.1 ev).1, ?_, same⟩
    rw [emplacePredefined, made]
  obtain ⟨r, made, _⟩ := run_total emplaced
    (rfl : (⟨sources, ∅⟩ : EventResolver).sources = sources)
    (predefEvents ++ cacheEvents)
  exact ⟨r, made⟩

/-- The constructor returns an event that is available where the kernel opens
it, and has read no element of an empty set. -/
def AvailabilityAgrees (system : PerfSystem) (arguments : EventArguments) :
    Prop :=
  ∃ ev, EventAttr.construct system arguments = .ok ev ∧
    (∀ scope : ExecutionScope, scope.isCpu = false →
      (ev.isAvailableIn scope = true ↔
        system.canOpen ev.attr (.thread ⟨0⟩) = true)) ∧
    (arguments.Probes → ∀ cpu ∈ system.cpus,
      (ev.isAvailableIn (.cpu cpu) = true ↔
        system.canOpen ev.attr (.cpu cpu) = true))

/-- There is a CPU that the constructor can try the event on. -/
def EventArguments.HasCpu (system : PerfSystem) :
    EventArguments → Prop
  | .predefined name config cpus => cpus ≠ [] ∨ ∃ cpu ∈ system.cpus,
      system.canOpen (EventAttr.init name config).attr (.cpu cpu) = true
  | .raw name config => ∃ cpu ∈ system.cpus, system.canOpen
      (EventAttr.init name ⟨perfTypeRaw, config, 0⟩).attr (.cpu cpu) = true
  | .tracepoint _ _ => False

/-- A probing constructor agrees if a CPU has been found, and else reads the
empty set. -/
theorem eventIsOpenable_probed (system : PerfSystem) (ev : EventAttr) :
    (∃ final, (ev.probed system).eventIsOpenable system = .ok final ∧
      (∀ scope : ExecutionScope, scope.isCpu = false →
        (final.isAvailableIn scope = true ↔
          system.canOpen final.attr (.thread ⟨0⟩) = true)) ∧
      ∀ cpu ∈ system.cpus, (final.isAvailableIn (.cpu cpu) = true ↔
        system.canOpen final.attr (.cpu cpu) = true)) ↔
      ∃ cpu ∈ system.cpus, system.canOpen ev.attr (.cpu cpu) = true := by
  rw [← EventAttr.probed_ne_nil]
  constructor
  · rintro ⟨final, constructed, -⟩ empty
    rw [EventAttr.eventIsOpenable_of_nil empty] at constructed
    cases constructed
  · intro nonempty
    obtain ⟨final, opened⟩ :=
      EventAttr.eventIsOpenable_of_ne_nil nonempty system
    refine ⟨final, opened, fun scope noCpu => ?_, fun cpu listed => ?_⟩
    · rw [EventAttr.isAvailableIn_eventIsOpenable opened noCpu]
    · exact EventAttr.isAvailableIn_probed opened listed

theorem availabilityAgrees_predefined {system : PerfSystem} {name : String}
    {config : EventConfig} {cpus : List Int64} (given : cpus ≠ []) :
    AvailabilityAgrees system (.predefined name config cpus) := by
  have kept : (if cpus.isEmpty then
      (EventAttr.init name config).getCpuSetFor system else cpus) = cpus :=
    if_neg (by rw [List.isEmpty_eq_false_iff.mpr given]; exact Bool.noConfusion)
  let ev : EventAttr := { EventAttr.init name config with cpus := cpus }
  obtain ⟨final, opened⟩ :=
    EventAttr.eventIsOpenable_of_ne_nil (show ev.cpus ≠ [] from given) system
  refine ⟨final, ?_, ?_, fun probes => absurd probes given⟩
  · rw [EventAttr.construct, EventAttr.predefined]
    simp only [kept]
    exact opened
  · intro scope noCpu
    rw [EventAttr.isAvailableIn_eventIsOpenable opened noCpu]

/-- The availability of an event is what the kernel allows if and only if the
constructor has a CPU to try it on; a tracepoint never has one. -/
theorem availabilityAgrees_iff (system : PerfSystem)
    (arguments : EventArguments) :
    AvailabilityAgrees system arguments ↔ arguments.HasCpu system := by
  cases arguments with
  | predefined name config cpus =>
      by_cases given : cpus = []
      · subst given
        have probing := eventIsOpenable_probed system
          (EventAttr.init name config)
        rw [EventArguments.HasCpu, or_iff_right (not_not_intro rfl), ← probing]
        refine exists_congr fun final => and_congr_right fun _ =>
          and_congr_right fun _ => ?_
        exact ⟨fun agrees => agrees rfl, fun agrees _ => agrees⟩
      · exact iff_of_true (availabilityAgrees_predefined given) (.inl given)
  | raw name config =>
      have probing := eventIsOpenable_probed system
        (EventAttr.init name ⟨perfTypeRaw, config, 0⟩)
      rw [EventArguments.HasCpu, ← probing]
      refine exists_congr fun final => and_congr_right fun _ =>
        and_congr_right fun _ => ?_
      exact ⟨fun agrees => agrees trivial, fun agrees _ => agrees⟩
  | tracepoint name id =>
      refine iff_of_false ?_ not_false
      rintro ⟨final, constructed, -⟩
      cases constructed

/-- Without the permission to open events on CPUs, the set is empty, and the
first of its elements is read. -/
theorem cpuCycles_not_agrees :
    EventAttr.construct ⟨fun _ scope => !scope.isCpu, [0, 1]⟩
        (.predefined "cpu-cycles" ⟨perfTypeHardware, 0, 0⟩ []) =
      .error .invalidAccess ∧
    ¬ AvailabilityAgrees ⟨fun _ scope => !scope.isCpu, [0, 1]⟩
        (.predefined "cpu-cycles" ⟨perfTypeHardware, 0, 0⟩ []) := by
  have failed : EventAttr.construct ⟨fun _ scope => !scope.isCpu, [0, 1]⟩
      (.predefined "cpu-cycles" ⟨perfTypeHardware, 0, 0⟩ []) =
        .error .invalidAccess := rfl
  refine ⟨failed, ?_⟩
  rintro ⟨ev, constructed, -⟩
  rw [failed] at constructed
  cases constructed

end Lo2s
