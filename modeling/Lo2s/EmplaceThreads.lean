import Lo2s.ProcessTree
import Lo2s.RunningThreads
import Lo2s.ThreadAttribution

/-!
# Processes that vanish while they are read

A process is in the map of running threads as soon as it is listed, but its
main thread only once that is read in its task directory.  `emplace_threads`
takes the name of the process from its main thread, without which it throws.
-/

namespace Lo2s

open Foundation Stateful

namespace TraceThreads

variable {ρ : Type} {library : TraceLibrary ρ}

/-- The thread is known to the trace as one of the process. -/
structure Registered (library : TraceLibrary ρ) (s : TraceThreads ρ)
    (process : Process) (thread : Thread) : Prop where
  node : library.linksOf s.registry process ≠ none
  group : s.groups.lookup (.thread thread) = some (.process process)
  context : library.has s.registry.definitions (.callingContext thread)

/-- What is known stays known. -/
structure Extends (library : TraceLibrary ρ) (s next : TraceThreads ρ) :
    Prop where
  nodes : ∀ process, library.linksOf s.registry process ≠ none →
    library.linksOf next.registry process ≠ none
  definitions : library.Grows s.registry next.registry

theorem Extends.refl (s : TraceThreads ρ) : Extends library s s where
  nodes _ there := there
  definitions _ there := there

theorem Extends.trans {first second third : TraceThreads ρ}
    (left : Extends library first second)
    (right : Extends library second third) : Extends library first third where
  nodes process known := right.nodes process (left.nodes process known)
  definitions key there := right.definitions key (left.definitions key there)

theorem defining_emplaceProcess (lawful : library.Lawful) (process : Process)
    (name : String) (s : TraceThreads ρ) :
    ∃ next, defining (library.emplaceProcess .noParent process name) s =
        (.ok (), next) ∧
      next.groups = s.groups ∧ Extends library s next ∧
        library.linksOf next.registry process ≠ none := by
  obtain ⟨registry, result, after, grows⟩ :=
    TraceLibrary.emplaceProcess_spec lawful .noParent process name s.registry
  have links : library.linksOf registry =
      if library.linksOf s.registry process = none then
        (library.linksOf s.registry).relink process none
      else library.linksOf s.registry := by
    simp only [after, TraceLibrary.linksAfter, true_or, if_true]
  have here : library.linksOf registry process ≠ none := by
    rw [links]
    split_ifs with unknown
    · rw [ParentLinks.relink_self]
      exact Option.some_ne_none none
    · exact unknown
  have kept : ∀ other, library.linksOf s.registry other ≠ none →
      library.linksOf registry other ≠ none := by
    intro other known
    rw [links]
    split_ifs with unknown
    · exact ParentLinks.relink_ne_none known
    · exact known
  refine ⟨{ s with registry := registry }, ?_, rfl, ⟨kept, grows⟩, here⟩
  rw [defining, result]

theorem defining_updateThread (lawful : library.Lawful) (thread : Thread)
    (name : String) (s : TraceThreads ρ) :
    ∃ next, defining (library.updateThread thread name) s = (.ok (), next) ∧
      next.groups = s.groups ∧ Extends library s next := by
  obtain ⟨registry, result, kept⟩ :=
    TraceLibrary.updateThread_spec lawful thread name s.registry
  refine ⟨{ s with registry := registry }, ?_, rfl, ?_, kept.grows⟩
  · rw [defining, result]
  · intro other known
    rw [kept.links]
    exact known

variable (isKernelThread : Thread → Bool)

theorem createThread_extends (lawful : library.Lawful) (thread : Thread)
    (name : String) (s : TraceThreads ρ) :
    Extends library s (createThread library isKernelThread thread name s) where
  nodes process known := by
    simp only [TraceLibrary.linksOf, createThread, lawful.links_emplace]
    exact known
  definitions key there := by
    simp only [createThread, lawful.has_emplace]
    exact .inr (.inr there)

theorem emplaceThreadExclusive_spec (lawful : library.Lawful)
    (process : Process) (thread : Thread) (name : String)
    (s : TraceThreads ρ) :
    ∃ next, emplaceThreadExclusive library isKernelThread process thread name s =
        (.ok (), next) ∧
      next.groups = s.groups.addThread thread process ∧
        Extends library s next ∧
          library.has next.registry.definitions (.callingContext thread) := by
  obtain ⟨middle, emplaced, sameGroups, extended, _⟩ :=
    defining_emplaceProcess lawful process "" s
  let grouped : TraceThreads ρ :=
    { middle with groups := middle.groups.addThread thread process }
  have run : emplaceThreadExclusive library isKernelThread process thread name
      s =
      (if library.has grouped.registry.definitions (.callingContext thread) then
        defining (library.updateThread thread name)
      else modify (createThread library isKernelThread thread name) :
        Tracing ρ Unit) grouped := by
    rw [emplaceThreadExclusive, bind_apply, emplaced]
    rfl
  have known : Extends library s grouped :=
    ⟨extended.nodes, extended.definitions⟩
  rw [run]
  split_ifs with context
  · obtain ⟨next, updated, keptGroups, later⟩ :=
      defining_updateThread lawful thread name grouped
    refine ⟨next, updated, ?_, known.trans later, later.definitions _ context⟩
    rw [keptGroups, ← sameGroups]
  · refine ⟨createThread library isKernelThread thread name grouped, rfl, ?_,
      known.trans (createThread_extends isKernelThread lawful thread name grouped), ?_⟩
    · rw [← sameGroups]
      rfl
    · simp only [createThread, lawful.has_emplace, true_or]

/-- The entries of `groups_` for the threads of a process. -/
def groupEntries (process : Process) (comms : List (Thread × String)) :
    List (ExecutionScope × ExecutionScope) :=
  comms.map fun entry => (.thread entry.1, .process process)

theorem emplaceComms_spec (lawful : library.Lawful) (process : Process)
    (comms : List (Thread × String)) (s : TraceThreads ρ) :
    ∃ next, emplaceComms library isKernelThread process comms s =
        (.ok (), next) ∧
      next.groups = s.groups.insertAllIfNew (groupEntries process comms) ∧
        Extends library s next ∧ ∀ entry ∈ comms,
          library.has next.registry.definitions (.callingContext entry.1) := by
  induction comms generalizing s with
  | nil =>
      refine ⟨s, rfl, rfl, .refl s, ?_⟩
      intro entry none
      cases none
  | cons entry comms induction =>
      obtain ⟨thread, name⟩ := entry
      obtain ⟨middle, first, firstGroups, firstExtends, context⟩ :=
        emplaceThreadExclusive_spec isKernelThread lawful process thread name s
      obtain ⟨next, rest, restGroups, restExtends, contexts⟩ := induction middle
      refine ⟨next, ?_, ?_, firstExtends.trans restExtends, ?_⟩
      · rw [emplaceComms, bind_apply, first]
        exact rest
      · rw [restGroups, firstGroups]
        rfl
      · intro other member
        rcases List.mem_cons.mp member with rfl | later
        · exact restExtends.definitions _ context
        · exact contexts other later

/-- The threads of a process in the order in which they are emplaced. -/
def threadsOf (comms : Comms) : List (Thread × String) :=
  comms.ascending fun left right => left.tid ≤ right.tid

/-- The entries of `groups_` for the threads of all processes. -/
def allGroupEntries (processes : List (Process × Comms)) :
    List (ExecutionScope × ExecutionScope) :=
  processes.flatMap fun entry => groupEntries entry.1 (threadsOf entry.2)

theorem emplaceProcesses_spec (lawful : library.Lawful)
    {processes : List (Process × Comms)}
    (mains : ∀ entry ∈ processes, (⟨entry.1.pid⟩ : Thread) ∈ entry.2)
    (s : TraceThreads ρ) :
    ∃ next, emplaceProcesses library isKernelThread processes s =
        (.ok (), next) ∧
      next.groups = s.groups.insertAllIfNew (allGroupEntries processes) ∧
        Extends library s next ∧ ∀ entry ∈ processes,
          library.linksOf next.registry entry.1 ≠ none ∧
            ∀ thread ∈ entry.2,
              library.has next.registry.definitions (.callingContext thread) := by
  induction processes generalizing s with
  | nil =>
      refine ⟨s, rfl, rfl, .refl s, ?_⟩
      intro entry none
      cases none
  | cons entry processes induction =>
      obtain ⟨process, comms⟩ := entry
      obtain ⟨main, mains⟩ := List.forall_mem_cons.mp mains
      obtain ⟨name, found⟩ := FiniteMap.mem_iff_lookup.mp main
      obtain ⟨named, emplaced, namedGroups, namedExtends, node⟩ :=
        defining_emplaceProcess lawful process name s
      obtain ⟨middle, first, firstGroups, firstExtends, contexts⟩ :=
        emplaceComms_spec isKernelThread lawful process (threadsOf comms) named
      obtain ⟨next, rest, restGroups, restExtends, known⟩ :=
        induction mains middle
      refine ⟨next, ?_, ?_,
        (namedExtends.trans firstExtends).trans restExtends, ?_⟩
      · rw [threadsOf] at first
        rw [emplaceProcesses, found]
        simp only [bind_apply, emplaced, first]
        exact rest
      · rw [restGroups, firstGroups, namedGroups, allGroupEntries,
          allGroupEntries, List.flatMap_cons, FiniteMap.insertAllIfNew,
          FiniteMap.insertAllIfNew, FiniteMap.insertAllIfNew,
          List.foldl_append]
      · intro other member
        rcases List.mem_cons.mp member with rfl | later
        · refine ⟨restExtends.nodes _ (firstExtends.nodes _ node), ?_⟩
          intro thread there
          obtain ⟨threadName, threadFound⟩ := FiniteMap.mem_iff_lookup.mp there
          exact restExtends.definitions _
            (contexts (thread, threadName) (FiniteMap.mem_ascending.mpr threadFound))
        · exact known other later

/-- A process without its main thread ends the loop with an exception. -/
theorem emplaceProcesses_throws (lawful : library.Lawful)
    {processes : List (Process × Comms)}
    (missing : ∃ entry ∈ processes, (⟨entry.1.pid⟩ : Thread) ∉ entry.2)
    (s : TraceThreads ρ) :
    (emplaceProcesses library isKernelThread processes s).1 =
      .error .outOfRange := by
  induction processes generalizing s with
  | nil =>
      obtain ⟨entry, none, _⟩ := missing
      cases none
  | cons entry processes induction =>
      obtain ⟨process, comms⟩ := entry
      rw [emplaceProcesses]
      cases found : comms.lookup ⟨process.pid⟩ with
      | none => rfl
      | some name =>
          have main : (⟨process.pid⟩ : Thread) ∈ comms :=
            FiniteMap.mem_iff_lookup.mpr ⟨name, found⟩
          have later : ∃ entry ∈ processes,
              (⟨entry.1.pid⟩ : Thread) ∉ entry.2 := by
            obtain ⟨other, member, absent⟩ := missing
            rcases List.mem_cons.mp member with rfl | inRest
            · exact absurd main absent
            · exact ⟨other, inRest, absent⟩
          obtain ⟨named, emplaced, _⟩ := defining_emplaceProcess lawful process name s
          obtain ⟨middle, first, _⟩ :=
            emplaceComms_spec isKernelThread lawful process (threadsOf comms) named
          rw [threadsOf] at first
          simp only [bind_apply, emplaced, first]
          exact induction later middle

/-- The processes in the order in which they are emplaced. -/
def processesOf (threadMap : RunningThreads) : List (Process × Comms) :=
  threadMap.ascending fun left right => left.pid ≤ right.pid

section

variable {proc : List ProcEntry} {ret : RunningThreads}

theorem mains_iff (scanned : Scanned proc ret) :
    (∀ entry ∈ processesOf ret, (⟨entry.1.pid⟩ : Thread) ∈ entry.2) ↔
      ∀ process, Listed proc process → Seen proc process ⟨process.pid⟩ := by
  constructor
  · intro mains process listed
    obtain ⟨comms, found⟩ :=
      FiniteMap.mem_iff_lookup.mp ((scanned.processes process).mpr listed)
    exact (scanned.threads process comms found _).mp
      (mains (process, comms) (FiniteMap.mem_ascending.mpr found))
  · rintro seen ⟨process, comms⟩ member
    have found := FiniteMap.mem_ascending.mp member
    have there : process ∈ ret :=
      FiniteMap.mem_iff_lookup.mpr ⟨comms, found⟩
    exact (scanned.threads process comms found _).mpr
      (seen process ((scanned.processes process).mp there))

theorem mem_allGroupEntries_iff (scanned : Scanned proc ret)
    (entry : ExecutionScope × ExecutionScope) :
    entry ∈ allGroupEntries (processesOf ret) ↔ ∃ process thread,
      Seen proc process thread ∧
        entry = (.thread thread, .process process) := by
  constructor
  · intro member
    obtain ⟨⟨process, comms⟩, isProcess, inside⟩ := List.mem_flatMap.mp member
    obtain ⟨⟨thread, name⟩, isThread, rfl⟩ := List.mem_map.mp inside
    have found := FiniteMap.mem_ascending.mp isProcess
    have there : thread ∈ comms :=
      FiniteMap.mem_iff_lookup.mpr ⟨name, FiniteMap.mem_ascending.mp isThread⟩
    exact ⟨process, thread,
      (scanned.threads process comms found thread).mp there, rfl⟩
  · rintro ⟨process, thread, seen, rfl⟩
    obtain ⟨comms, found⟩ :=
      FiniteMap.mem_iff_lookup.mp ((scanned.processes process).mpr seen.listed)
    obtain ⟨name, named⟩ := FiniteMap.mem_iff_lookup.mp
      ((scanned.threads process comms found thread).mpr seen)
    apply List.mem_flatMap.mpr
    refine ⟨(process, comms), FiniteMap.mem_ascending.mpr found, ?_⟩
    exact List.mem_map.mpr ⟨(thread, name), FiniteMap.mem_ascending.mpr named,
      rfl⟩

/-- All threads get the entry of their process if no two of them, nor one that
is there already, contradict each other. -/
theorem grouped_iff (scanned : Scanned proc ret)
    {groups : ExecutionScopeGroup} :
    (∀ process thread, Seen proc process thread →
        AList.lookup (.thread thread) (groups.insertAllIfNew
          (allGroupEntries (processesOf ret))) = some (.process process)) ↔
      ∀ process thread, Seen proc process thread →
        (∀ other, Seen proc other thread → other = process) ∧
          ∀ scope, groups.lookup (.thread thread) = some scope →
            scope = .process process := by
  have entries := mem_allGroupEntries_iff scanned
  have entry : ∀ process thread, Seen proc process thread →
      (.thread thread, .process process) ∈ allGroupEntries (processesOf ret) :=
    fun process thread seen => (entries _).mpr ⟨process, thread, seen, rfl⟩
  constructor
  · intro found process thread seen
    have all : ∀ entry ∈ allGroupEntries (processesOf ret),
        AList.lookup entry.1 (groups.insertAllIfNew
          (allGroupEntries (processesOf ret))) = some entry.2 := by
      intro one member
      obtain ⟨process, thread, seen, rfl⟩ := (entries one).mp member
      exact found process thread seen
    have agree := FiniteMap.lookup_insertAllIfNew_iff.mp all _
      (entry process thread seen)
    constructor
    · intro other otherSeen
      exact ExecutionScope.process.inj
        (agree.2 _ (entry other thread otherSeen) rfl)
    · exact agree.1
  · intro agree process thread seen
    apply FiniteMap.lookup_insertAllIfNew_iff.mpr _ _ (entry process thread seen)
    intro one member
    obtain ⟨process, thread, seen, rfl⟩ := (entries one).mp member
    refine ⟨(agree process thread seen).2, fun two isTwo sameThread => ?_⟩
    obtain ⟨other, otherThread, otherSeen, rfl⟩ := (entries two).mp isTwo
    cases ExecutionScope.thread.inj sameThread
    exact congrArg ExecutionScope.process
      ((agree process thread seen).1 other otherSeen)

end

/-- The threads that have been read can be emplaced, and are known to the trace
then. -/
def RunningThreadsEmplaced (library : TraceLibrary ρ)
    (isKernelThread : Thread → Bool) (proc : List ProcEntry)
    (s : TraceThreads ρ) : Prop :=
  ∃ next, emplaceThreads library isKernelThread
      (getCommsForRunningThreads proc) s = (.ok (), next) ∧
    ∀ process comms,
      (getCommsForRunningThreads proc).lookup process = some comms →
        ∀ thread ∈ comms, Registered library next process thread

/-- This is so if and only if the main thread of every process that is listed
has been read, and no thread that has been read is one of two processes. -/
theorem runningThreadsEmplaced_iff (lawful : library.Lawful)
    (proc : List ProcEntry) (s : TraceThreads ρ) :
    RunningThreadsEmplaced library isKernelThread proc s ↔
      (∀ process, Listed proc process → Seen proc process ⟨process.pid⟩) ∧
        ∀ process thread, Seen proc process thread →
          (∀ other, Seen proc other thread → other = process) ∧
            ∀ scope, s.groups.lookup (.thread thread) = some scope →
              scope = .process process := by
  have scanned := scanned_getCommsForRunningThreads proc
  rw [← mains_iff scanned, ← grouped_iff scanned]
  constructor
  · rintro ⟨next, emplaced, registered⟩
    have mains : ∀ entry ∈ processesOf (getCommsForRunningThreads proc),
        (⟨entry.1.pid⟩ : Thread) ∈ entry.2 := by
      by_contra notAll
      have missing : ∃ entry ∈ processesOf (getCommsForRunningThreads proc),
          (⟨entry.1.pid⟩ : Thread) ∉ entry.2 := by
        simpa only [not_forall, exists_prop] using notAll
      have thrown := emplaceProcesses_throws isKernelThread lawful missing s
      rw [emplaceThreads, ← processesOf] at emplaced
      rw [emplaced] at thrown
      cases thrown
    refine ⟨mains, fun process thread seen => ?_⟩
    obtain ⟨other, result, groups, _⟩ :=
      emplaceProcesses_spec isKernelThread lawful mains s
    have same : other = next := by
      rw [emplaceThreads, ← processesOf, result] at emplaced
      exact congrArg Prod.snd emplaced
    obtain ⟨comms, found⟩ :=
      FiniteMap.mem_iff_lookup.mp ((scanned.processes process).mpr seen.listed)
    rw [← groups, same]
    exact (registered process comms found thread
      ((scanned.threads process comms found thread).mpr seen)).group
  · rintro ⟨mains, grouped⟩
    obtain ⟨next, result, groups, _, known⟩ :=
      emplaceProcesses_spec isKernelThread lawful mains s
    refine ⟨next, result, fun process comms found thread there => ?_⟩
    obtain ⟨node, contexts⟩ :=
      known (process, comms) (FiniteMap.mem_ascending.mpr found)
    refine ⟨node, ?_, contexts thread there⟩
    rw [groups]
    exact grouped process thread
      ((scanned.threads process comms found thread).mp there)

/-- Process 7 with its main thread and another one. -/
def twoThreads : List ProcEntry :=
  [⟨['7'], some ⟨[⟨['7'], some ['s', 'h']⟩, ⟨['8'], none⟩], false⟩⟩]

theorem runningThreadsEmplaced_iff_twoThreads :
    RunningThreadsEmplaced .ofTables (fun _ => false) twoThreads
      (init .empty [0]) := by
  apply (runningThreadsEmplaced_iff (fun _ => false)
    TraceLibrary.ofTables_lawful twoThreads (init .empty [0])).mpr
  have seven : idOf? ['7'] = some 7 := by decide
  have eight : idOf? ['8'] = some 8 := by decide
  have seen : ∀ process thread, Seen twoThreads process thread ↔
      7 = process.pid ∧ (7 = thread.tid ∨ 8 = thread.tid) := by
    simp [Seen, twoThreads, TaskDirectory.Has, seven, eight]
  constructor
  · intro process listed
    have named : 7 = process.pid := by
      simpa [Listed, twoThreads, seven] using listed
    exact (seen process _).mpr ⟨named, .inl named⟩
  · intro process thread there
    obtain ⟨named, ids⟩ := (seen process thread).mp there
    have notIdle : thread ≠ ⟨0⟩ := by
      rintro rfl
      rcases ids with same | same <;> cases same
    refine ⟨fun other otherThere => ?_, fun scope grouped => ?_⟩
    · obtain ⟨otherNamed, _⟩ := (seen other thread).mp otherThere
      cases process
      cases other
      exact congrArg Process.mk (otherNamed.symm.trans named)
    · have none : (ExecutionScopeGroup.ofTrace [0]).lookup (.thread thread) =
          none := by
        simp [ExecutionScopeGroup.ofTrace, ExecutionScopeGroup.addCpu,
          ExecutionScopeGroup.addProcess, FiniteMap.lookup_insertIfNew,
          notIdle]
      rw [init, none] at grouped
      cases grouped

/-- The task directory of process 7 cannot be opened any more. -/
theorem vanished_not_emplaced :
    ¬ RunningThreadsEmplaced .ofTables (fun _ => false) [⟨['7'], none⟩]
      (init .empty [0]) := by
  rintro ⟨next, emplaced, _⟩
  have thrown : (emplaceThreads .ofTables (fun _ => false)
      (getCommsForRunningThreads [⟨['7'], none⟩]) (init .empty [0])).1 =
        .error .outOfRange := rfl
  rw [emplaced] at thrown
  cases thrown

end TraceThreads

end Lo2s
