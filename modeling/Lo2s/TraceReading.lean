import Lo2s.CctxReading
import Lo2s.TraceMeaning

/-!
# What a reader sees in a trace

In the location of every client a process, if there is one, is outermost, and
what is resolved lies within one.  So the definitions that the events of the
locations lead to are named by the process of the client, and a reader sees the
contexts of the event, back to its last thread, process or system call.
-/

namespace Lo2s

open Foundation KeyOrder

/-- A process is the outermost context, if it is there at all, and there is one
where something is resolved. -/
structure ProcessFirst (path : List EnteredContext) : Prop where
  top : ∀ cctx ∈ path.tail, cctx.context.type ≠ .process
  resolved : ∀ cctx ∈ path, cctx.NeedsParent →
    ∃ process ∈ path, process.context.type = .process

namespace ProcessFirst

theorem nil : ProcessFirst [] where
  top _ absent := absurd absent List.not_mem_nil
  resolved _ absent := absurd absent List.not_mem_nil

theorem within {process : EnteredContext}
    (kind : process.context.type = .process) {inner : List EnteredContext}
    (others : ∀ cctx ∈ inner, cctx.context.type ≠ .process) :
    ProcessFirst (process :: inner) where
  top := others
  resolved _ _ _ := ⟨process, List.mem_cons_self, kind⟩

theorem single {cctx : EnteredContext} (outermost : ¬ cctx.NeedsParent) :
    ProcessFirst [cctx] where
  top _ absent := absurd absent List.not_mem_nil
  resolved other member needs := by
    rw [List.mem_singleton.mp member] at needs
    exact absurd needs outermost

theorem outer {path inner : List EnteredContext}
    (first : ProcessFirst (path ++ inner)) : ProcessFirst path where
  top cctx member := by
    cases path with
    | nil => cases member
    | cons outermost path =>
        exact first.top cctx (List.mem_append_left inner member)
  resolved cctx member needs := by
    obtain ⟨process, there, kind⟩ :=
      first.resolved cctx (List.mem_append_left inner member) needs
    cases path with
    | nil => cases member
    | cons outermost path =>
        rcases List.mem_cons.mp there with rfl | within
        · exact ⟨process, List.mem_cons_self, kind⟩
        · exact absurd kind (first.top process within)

theorem exists_equivalent {left right : List EnteredContext}
    (same : EquivalentPaths left right) {cctx : EnteredContext}
    (member : cctx ∈ left) : ∃ other ∈ right, Equivalent cctx other := by
  induction same with
  | nil => cases member
  | cons equivalent _ induction =>
      rcases List.mem_cons.mp member with rfl | later
      · exact ⟨_, List.mem_cons_self, equivalent⟩
      · obtain ⟨other, there, alike⟩ := induction later
        exact ⟨other, List.mem_cons_of_mem _ there, alike⟩

theorem congr {left right : List EnteredContext} (first : ProcessFirst right)
    (same : EquivalentPaths left right) : ProcessFirst left where
  top cctx member := by
    have tails : EquivalentPaths left.tail right.tail := by
      cases same with
      | nil => exact .nil
      | cons _ rest => exact rest
    obtain ⟨other, there, alike⟩ := exists_equivalent tails member
    rw [EnteredContext.type_eq_of_equivalent alike]
    exact first.top other there
  resolved cctx member needs := by
    obtain ⟨other, there, alike⟩ := exists_equivalent same member
    obtain ⟨process, inside, kind⟩ := first.resolved other there
      ((EnteredContext.needsParent_congr alike).mp needs)
    obtain ⟨mine, here, alikeProcess⟩ := exists_equivalent same.symm inside
    refine ⟨mine, here, ?_⟩
    rw [← EnteredContext.type_eq_of_equivalent alikeProcess]
    exact kind

end ProcessFirst

/-- In every event. -/
def ProcessesFirst (log : List PathEvent) : Prop :=
  ∀ event ∈ log, ProcessFirst event.path

theorem processesFirst_append {first second : List PathEvent} :
    ProcessesFirst (first ++ second) ↔
      ProcessesFirst first ∧ ProcessesFirst second := by
  simp only [ProcessesFirst, List.mem_append, or_imp, forall_and]

/-- The tree of a location has its processes on top if its events have. -/
theorem Location.processesOnTop {location : Location}
    (first : ProcessesFirst location.meaning) :
    ProcessesOnTop location.tree.tree.children := by
  have sameTree : location.tree.tree = location.recording.tree.tree := by
    rw [← location.only]
    rfl
  have distinct : location.tree.tree.children.Distinct := by
    rw [sameTree]
    exact location.recording.represents.invariant.tree.distinct
  have shaped : ∀ path ∈ location.tree.tree.children.paths,
      ProcessFirst path := by
    intro path member
    have stored := Forest.valueAt_of_mem_paths distinct member
    have inside : path ≠ [] := by
      rintro rfl
      cases stored
    have present : (location.recording.tree.tree.valueAt path).isSome := by
      rw [← sameTree]
      cases path with
      | nil => exact absurd rfl inside
      | cons key path =>
          rw [Forest.valueAt_children]
          exact stored
    obtain ⟨event, known, inner, same⟩ :=
      (location.recording.visited_iff inside).mpr present
    exact ((first event known).congr same).outer
  constructor
  · intro path member
    exact (shaped path member).top
  · intro path member cctx last needs
    exact (shaped path member).resolved cctx (List.mem_of_getLast? last) needs

theorem processesFirst_singleton {event : PathEvent} :
    ProcessesFirst [event] ↔ ProcessFirst event.path := by
  simp [ProcessesFirst]

theorem processesFirst_nil : ProcessesFirst [] := by
  simp [ProcessesFirst]

theorem ProcessFirst.of_types {process : Process} {unwritten : UnwrittenWords}
    {inner : List EnteredContext}
    (others : ∀ cctx ∈ inner, cctx.context.type ≠ .process) :
    ProcessFirst (.process process unwritten :: inner) :=
  .within (EnteredContext.type_process process unwritten) others

namespace GpuMonitor

theorem processesFirst_kernelEvents (g : GpuMonitor) (entered : Bool)
    (last : TimePoint) (events : List GpuEvent) :
    ProcessesFirst (g.kernelEvents entered last events) := by
  have process : ProcessFirst [g.processContext] := .of_types (by simp)
  have kernel : ∀ kernelId, ProcessFirst (g.kernelPath kernelId) := by
    intro kernelId
    apply ProcessFirst.of_types
    intro cctx member kind
    rw [List.mem_singleton.mp member] at kind
    cases kind
  induction events generalizing entered last with
  | nil =>
      cases entered with
      | false => exact processesFirst_nil
      | true => exact processesFirst_singleton.mpr process
  | cons event events induction =>
      cases event with
      | kernel startTp endTp kernelId =>
          rw [kernelEvents, processesFirst_append, processesFirst_append]
          refine ⟨⟨?_, ?_⟩, induction _ _⟩
          · split_ifs
            · exact processesFirst_nil
            · exact processesFirst_singleton.mpr process
          · intro event member
            rcases List.mem_pair.mp member with rfl | rfl
            · exact kernel kernelId
            · exact kernel kernelId
      | kernelDef kernelId function =>
          cases entered <;> exact induction _ _
      | other => cases entered <;> exact induction _ _

end GpuMonitor

namespace SyscallWriter

theorem processesFirst_calls (w : SyscallWriter)
    (current : Option EnteredContext) (last : TimePoint)
    (samples : List SyscallSample)
    (first : ∀ cctx, current = some cctx → ProcessFirst [cctx]) :
    ProcessesFirst (w.calls current last samples) := by
  induction samples generalizing current last with
  | nil =>
      cases current with
      | none => exact processesFirst_nil
      | some cctx => exact processesFirst_singleton.mpr (first cctx rfl)
  | cons sample samples induction =>
      have entered : ProcessFirst [w.contextOf sample] := by
        apply ProcessFirst.single
        simp [EnteredContext.NeedsParent, type_contextOf]
      have nothing : ∀ cctx, (none : Option EnteredContext) = some cctx →
          ProcessFirst [cctx] := by
        intro cctx absent
        cases absent
      cases current with
      | none =>
          rw [calls]
          split_ifs
          · intro event member
            rcases List.mem_cons.mp member with rfl | later
            · exact entered
            · refine induction _ _ ?_ event later
              rintro _ ⟨rfl⟩
              exact entered
          · exact induction _ _ nothing
      | some cctx =>
          rw [calls]
          split_ifs
          · exact induction _ _ first
          · intro event member
            rcases List.mem_cons.mp member with rfl | later
            · exact first cctx rfl
            · exact induction _ _ nothing event later

end SyscallWriter

namespace SampleWriter

variable {w : SampleWriter} {s : Sampling}

theorem processFirst_contextsOf (w : SampleWriter) (ids : UInt32 × UInt32)
    (addresses : List UInt64) :
    ProcessFirst (w.contextsOf ids ++
      LocalCctxTree.chainPath addresses w.unwritten) := by
  apply ProcessFirst.of_types
  intro cctx member kind
  rcases List.mem_cons.mp member with rfl | inside
  · cases kind
  · obtain ⟨addr, _, rfl⟩ := List.mem_map.mp inside
    cases kind

theorem processFirst_outer (w : SampleWriter) (ids : UInt32 × UInt32) :
    ProcessFirst (w.contextsOf ids) ∧
      ProcessFirst ((w.contextsOf ids).take 1) := by
  have whole := processFirst_contextsOf w ids []
  rw [LocalCctxTree.chainPath, List.map_nil, List.append_nil] at whole
  have parts := whole
  rw [← List.take_append_drop 1 (w.contextsOf ids)] at parts
  exact ⟨whole, parts.outer⟩

theorem processesFirst_switchIn (tp : TimePoint) (ids : UInt32 × UInt32)
    (first : ProcessesFirst s.log) : ProcessesFirst (w.switchIn tp ids s).log := by
  obtain ⟨both, process⟩ := processFirst_outer w ids
  rw [switchIn]
  split
  · exact first
  · rw [processesFirst_append]
    refine ⟨first, fun event member => ?_⟩
    rcases List.mem_pair.mp member with rfl | rfl
    · exact process
    · exact both

theorem processesFirst_switchOut (tp : TimePoint)
    (first : ProcessesFirst s.log) : ProcessesFirst (w.switchOut tp s).log := by
  rw [switchOut]
  split
  · next current _ =>
    obtain ⟨both, process⟩ := processFirst_outer w current
    rw [processesFirst_append]
    refine ⟨first, fun event member => ?_⟩
    rcases List.mem_pair.mp member with rfl | rfl
    · exact both
    · exact process
  · exact first

theorem processesFirst_switched (misc : UInt16) (tp : TimePoint)
    (ids : UInt32 × UInt32) (first : ProcessesFirst s.log) :
    ProcessesFirst (w.switched misc tp ids s).log := by
  rw [switched]
  split_ifs
  · exact processesFirst_switchOut tp first
  · exact processesFirst_switchIn tp ids first

theorem processesFirst_advance (first : ProcessesFirst s.log) (record : Record) :
    ProcessesFirst (w.advance s record).log := by
  cases record with
  | sample sample =>
      rw [advance, sampled]
      have switched := processesFirst_switchIn (w := w)
        (w.adjusted sample.time s) (sample.pid, sample.tid) first
      refine processesFirst_append.mpr ⟨switched, ?_⟩
      rw [processesFirst_singleton, PathEvent.path]
      obtain ⟨current, time, log⟩ := s
      cases current with
      | none => exact processFirst_contextsOf w _ _
      | some ids => exact processFirst_contextsOf w ids _
  | mmap mmapEvent => exact first
  | switchCpuWide contextSwitch => exact processesFirst_switched _ _ _ first
  | switch contextSwitch => exact processesFirst_switched _ _ _ first

theorem processesFirst_samples (w : SampleWriter) (records : List Record)
    (start now : TimePoint) :
    ProcessesFirst (w.samples records start now) := by
  have told : ∀ s : Sampling, ProcessesFirst s.log →
      ProcessesFirst (records.foldl w.advance s).log := by
    induction records with
    | nil => exact fun _ first => first
    | cons record records induction =>
        exact fun s first => induction _ (processesFirst_advance first record)
  have first := told ⟨none, start, []⟩ processesFirst_nil
  rw [samples, closed]
  split
  · exact processesFirst_switchOut _ first
  · exact processesFirst_switchOut _ first

end SampleWriter

namespace OpenmpMonitor

/-- A stack that is empty or has a process at its bottom. -/
structure WithinProcess (s : ContextStack) : Prop where
  stack : ProcessFirst s.stack.reverse
  bottom : ∀ outer, s.stack.getLast? = some outer →
    outer.context.type = .process
  log : ProcessesFirst s.log

variable {s : ContextStack}

theorem WithinProcess.leave (inside : WithinProcess s) (tp : TimePoint)
    (level : Nat) : WithinProcess (s.leave tp level) where
  stack := by
    have whole := inside.stack
    rw [← List.take_append_drop (s.toLeave level) s.stack,
      List.reverse_append] at whole
    exact whole.outer
  bottom := by
    intro outer last
    rw [ContextStack.leave, List.getLast?_drop] at last
    split at last
    · cases last
    · exact inside.bottom outer last
  log := by
    rw [ContextStack.leave, processesFirst_append]
    refine ⟨inside.log, fun event member => ?_⟩
    obtain ⟨inner, within, rfl⟩ := List.mem_map.mp member
    obtain ⟨above, whole⟩ :=
      (List.mem_tails inner s.stack).mp (List.mem_of_mem_take within)
    have path := inside.stack
    rw [← whole, List.reverse_append] at path
    exact path.outer

theorem WithinProcess.push (inside : WithinProcess s) (tp : TimePoint)
    {cctx : EnteredContext}
    (first : ProcessFirst (cctx :: s.stack).reverse)
    (bottom : s.stack = [] → cctx.context.type = .process) :
    WithinProcess (s.push tp cctx) where
  stack := first
  bottom := by
    intro outer last
    rw [ContextStack.push, List.getLast?_cons] at last
    cases below : s.stack.getLast? with
    | none =>
        rw [below] at last
        cases last
        exact bottom (List.getLast?_eq_none_iff.mp below)
    | some other =>
        rw [below] at last
        cases last
        exact inside.bottom other below
  log := by
    rw [ContextStack.push, processesFirst_append]
    exact ⟨inside.log, processesFirst_singleton.mpr first⟩

theorem WithinProcess.begun (inside : WithinProcess s) (m : OpenmpMonitor)
    (tp : TimePoint) :
    WithinProcess (m.begun tp s) ∧ (m.begun tp s).stack ≠ [] := by
  rw [OpenmpMonitor.begun]
  split_ifs with empty
  · refine ⟨inside.push tp ?_ fun _ => rfl, List.cons_ne_nil _ _⟩
    rw [empty, List.reverse_singleton]
    exact .of_types (by simp)
  · exact ⟨inside, empty⟩

theorem WithinProcess.enter (inside : WithinProcess s) (occupied : s.stack ≠ [])
    (tp : TimePoint) (cctx : OMPTCctx) :
    WithinProcess (s.push tp (.openmp cctx)) := by
  refine inside.push tp ?_ fun empty => absurd empty occupied
  rw [List.reverse_cons]
  have first := inside.stack
  cases shape : s.stack.reverse with
  | nil => exact absurd (List.reverse_eq_nil_iff.mp shape) occupied
  | cons outermost inner =>
      have last : s.stack.getLast? = some outermost := by
        rw [← List.head?_reverse, shape]
        rfl
      rw [shape] at first
      refine .within (inside.bottom outermost last) ?_
      intro other member
      rcases List.mem_append.mp member with old | new
      · exact first.top other old
      · rw [List.mem_singleton.mp new]
        intro kind
        cases kind

theorem WithinProcess.advance {r : OpenmpRegions}
    (inside : WithinProcess r.contexts) (m : OpenmpMonitor) (event : OmptEvent) :
    WithinProcess (m.advance r event).contexts := by
  cases event with
  | other => exact inside
  | enter tp cctx =>
      obtain ⟨there, occupied⟩ := inside.begun m (m.timeConverter.convert tp)
      exact there.enter occupied _ cctx
  | exit tp cctx =>
      obtain ⟨there, _⟩ := inside.begun m (m.timeConverter.convert tp)
      rw [OpenmpMonitor.advance]
      split_ifs
      · exact there.leave _ _
      · exact there

theorem processesFirst_regions (m : OpenmpMonitor) (events : List OmptEvent) :
    ProcessesFirst (m.regions events) := by
  have reached : ∀ r : OpenmpRegions, WithinProcess r.contexts →
      WithinProcess (events.foldl m.advance r).contexts := by
    induction events with
    | nil => exact fun _ inside => inside
    | cons event events induction =>
        exact fun r inside => induction _ (inside.advance m event)
  have start : WithinProcess .init := by
    refine ⟨.nil, ?_, processesFirst_nil⟩
    intro outer absent
    cases absent
  exact ((reached ⟨.init, 0⟩ start).leave _ 1).log

end OpenmpMonitor

namespace TraceClient

theorem processesFirst (interruptGenerator : Nat) (client : TraceClient) :
    ProcessesFirst (client.meaning interruptGenerator) := by
  cases client with
  | samples scope trace recordCallgraph timeConverter unwritten start now
      records =>
      exact SampleWriter.processesFirst_samples _ records start now
  | kernels process timeConverter unwritten events =>
      exact GpuMonitor.processesFirst_kernelEvents _ false 0 events
  | regions process timeConverter unwritten events tid =>
      exact OpenmpMonitor.processesFirst_regions _ _
  | systemCalls sysEnterId timeConverter unwritten calls =>
      apply SyscallWriter.processesFirst_calls
      intro cctx absent
      cases absent

end TraceClient

/-- A reader of the reference `ref` of a location, which its table turns into a
reference of the trace, sees what can be read of a path. -/
def Sees {ρ : Type u} {δ : Type v} (library : CctxLibrary ρ δ)
    (names : CctxNames) (d : CctxDefinitions ρ) (table : MappingTable)
    (ref : Nat) (path : List EnteredContext) : Prop :=
  ∃ definition, table.slots[ref]? = some definition ∧ ∃ labels,
    library.Leads d definition labels ∧
      List.Forall₂ (Shown names (processOf path)) (readable path) labels

namespace CctxLibrary

variable {ρ : Type u} {δ : Type v} {library : CctxLibrary ρ δ}
  {names : CctxNames} {d : CctxDefinitions ρ}

theorem sees_of_leadsTo {merged : Forest EnteredContext δ}
    (all : library.NamesAll names d [] merged) {table : MappingTable} (ref : Nat)
    (path : List EnteredContext)
    (leads : LeadsTo (library.registry names) merged table ref path) :
    Sees library names d table ref path := by
  obtain ⟨definition, stored, slot⟩ := leads
  obtain ⟨labels, shows, shown⟩ := all path definition stored
  exact ⟨_, slot, labels, shows, shown⟩

/-- What has been merged is named right, where the processes come first. -/
theorem finalizeTrees_names (lawful : library.Lawful) {locations : List Location}
    (first : ∀ location ∈ locations, ProcessesFirst location.meaning)
    (sound : library.Sound d) {tables : List MappingTable}
    {merged : Forest EnteredContext δ} {next : CctxDefinitions ρ}
    (finished : (library.registry names).finalizeTrees
      (locations.map Location.tree) .nil d = .ok (tables, merged, next))
    (fits : library.Fits next) : library.NamesAll names next [] merged := by
  refine mergeAll_names lawful ?_ sound ?_ finished fits
  · intro t member
    obtain ⟨location, known, rfl⟩ := List.mem_map.mp (List.mem_filter.mp member).1
    exact location.processesOnTop (first location known)
  · intro path ref stored
    simp at stored

/-- Whatever clients a trace has and whatever they are given, their trees are
made and merged, and the global tree holds the contexts that their machines have
and no others.  As long as there are references for all definitions, a reader of
any calling-context event of any location, who looks its reference up in the
table of the location and follows the links between the definitions, sees the
contexts that the machine of the client has for it, back to the last thread,
process or system call, named in the process the event has happened in. -/
theorem trace_read (lawful : library.Lawful) (names : CctxNames)
    (sound : library.Sound d) (interruptGenerator : Nat)
    (clients : List TraceClient)
    (suits : ∀ client ∈ clients, client.Suits interruptGenerator) :
    ∃ trees tables merged next,
      clients.mapM (TraceClient.tree interruptGenerator) = .ok trees ∧
      (library.registry names).finalizeTrees trees .nil d =
        .ok (tables, merged, next) ∧
      (∀ path, path ≠ [] → ((merged.valueAt path).isSome ↔
        ∃ client ∈ clients,
          Visited (client.meaning interruptGenerator) path)) ∧
      (∀ tree ∈ trees, tree.numCctx = 0 → tree.cctxEvents = []) ∧
      (library.Fits next → List.Forall₂
        (fun (told : LocalCctxTree × List PathEvent) table =>
          List.Forall₂ (Reads (Sees library names next table))
            told.1.cctxEvents told.2)
        ((trees.zip (clients.map (TraceClient.meaning interruptGenerator))).filter
          fun told => 0 < told.1.numCctx) tables) := by
  obtain ⟨locations, made, means⟩ := TraceClient.exists_locations suits
  obtain ⟨tables, merged, next, finished, reads, silent, paths⟩ :=
    (library.registry names).finalizeTrees_tells locations d
  have told : ∀ {log : List PathEvent}, log ∈ locations.map Location.meaning ↔
      ∃ client ∈ clients, client.meaning interruptGenerator = log := by
    intro log
    rw [means, List.mem_map]
  have first : ∀ location ∈ locations, ProcessesFirst location.meaning := by
    intro location known
    obtain ⟨client, _, same⟩ := told.mp (List.mem_map_of_mem known)
    rw [← same]
    exact client.processesFirst interruptGenerator
  refine ⟨_, tables, merged, next, made, finished, ?_, ?_, fun fits => ?_⟩
  · intro path inside
    rw [paths path inside]
    constructor
    · rintro ⟨location, known, visited⟩
      obtain ⟨client, present, same⟩ := told.mp (List.mem_map_of_mem known)
      exact ⟨client, present, same ▸ visited⟩
    · rintro ⟨client, present, visited⟩
      obtain ⟨location, known, same⟩ :=
        List.mem_map.mp (told.mpr ⟨client, present, rfl⟩)
      exact ⟨location, known, same ▸ visited⟩
  · intro tree member none
    obtain ⟨location, known, rfl⟩ := List.mem_map.mp member
    exact silent location known none
  · have all := finalizeTrees_names lawful first sound finished fits
    rw [← means, List.zip_map', List.filter_map, List.forall₂_map_left_iff]
    refine reads.imp fun location table read => ?_
    exact read.imp fun _ _ each => each.mono (sees_of_leadsTo all)

/-- A sample of a CPU, a kernel, an OpenMP region and a system call. -/
def oneOfEach : List TraceClient :=
  [.samples (.cpu 0) ⟨fun _ => 0⟩ true ⟨0⟩ ⟨0, 0, 0⟩ 5 30
      [.sample ⟨0x400, 7, 8, 20, 2, fun i => [0x400, 0x500].get i⟩],
    .kernels ⟨7⟩ ⟨0⟩ ⟨0, 0, 0⟩ [.kernel 5 9 3],
    .regions ⟨7⟩ ⟨0⟩ ⟨0, 0, 0⟩ [.enter 4 ⟨0, 8, 0x500, 2⟩] 8,
    .systemCalls 1 ⟨0⟩ ⟨0, 0, 0⟩ [⟨1, 10, 0⟩]]

theorem trace_read_oneOfEach :
    let names : CctxNames := ⟨fun _ _ => .forUnknownFunction, fun _ _ => none,
      fun _ => none⟩
    ∃ trees tables merged next,
      oneOfEach.mapM (TraceClient.tree 0) = .ok trees ∧
      (ofTable.registry names).finalizeTrees trees .nil empty =
        .ok (tables, merged, next) ∧
      (merged.valueAt [.process ⟨7⟩ ⟨0, 0, 0⟩]).isSome ∧
      (∀ tree ∈ trees, tree.numCctx = 0 → tree.cctxEvents = []) ∧
      (ofTable.Fits next → List.Forall₂
        (fun (told : LocalCctxTree × List PathEvent) table =>
          List.Forall₂ (Reads (Sees ofTable names next table))
            told.1.cctxEvents told.2)
        ((trees.zip (oneOfEach.map (TraceClient.meaning 0))).filter
          fun told => 0 < told.1.numCctx) tables) := by
  intro names
  have suits : ∀ client ∈ oneOfEach, client.Suits 0 := by
    have tid : Int64.toUInt64 8 = 8 := rfl
    simp [oneOfEach, TraceClient.Suits, SampleWriter.Monitored,
      SampleWriter.Suits, ofThread, OmptEvent.thread?, tid]
  obtain ⟨trees, tables, merged, next, made, finished, paths, told⟩ :=
    trace_read ofTable_lawful names sound_empty 0 oneOfEach suits
  refine ⟨trees, tables, merged, next, made, finished, ?_, told⟩
  apply (paths _ (List.cons_ne_nil _ _)).mpr
  exact ⟨.kernels ⟨7⟩ ⟨0⟩ ⟨0, 0, 0⟩ [.kernel 5 9 3], by simp [oneOfEach],
    .enter 5 [.process ⟨7⟩ ⟨0, 0, 0⟩], List.mem_cons_self, [],
    EquivalentPaths.refl _⟩

end CctxLibrary

end Lo2s
