import Lo2s.MemoryMapEmplace
import Lo2s.ProcessMonitor

/-!
# Where mapping records are

A mapping record waits in the cache of the thread whose writer handled it, and
reaches the resolvers when that thread ends.  The resolvers know at least what
the last of the moved records says about an address, as long as no mapping is
truncated by a later one.
-/

namespace Lo2s

open Std Foundation

variable {ρ : Type}

/-- The record maps the address. -/
def RecordMmap.covers (addr : Address) (record : RecordMmap) : Bool :=
  match record.range with
  | .error _ => false
  | .ok range => (Mapping.mk range record.pgoff).Contains addr

/-- What the record resolves an address of a process to. -/
def RecordMmap.resolverAt (source : ResolverSource ρ) (process : Process)
    (addr : Address) (record : RecordMmap) : Option ρ :=
  if record.process = process ∧ record.covers addr = true then
    source.functionResolverFor record.filename
  else none

/-- What the last of some records that resolves the address of the process
resolves it to. -/
def lastResolver (source : ResolverSource ρ) (process : Process)
    (addr : Address) (records : List RecordMmap) : Option ρ :=
  records.reverse.findSome? (RecordMmap.resolverAt source process addr)

theorem lastResolver_append (source : ResolverSource ρ) (process : Process)
    (addr : Address) (first second : List RecordMmap) :
    lastResolver source process addr (first ++ second) =
      (lastResolver source process addr second).or
        (lastResolver source process addr first) := by
  simp [lastResolver, List.findSome?_append]

theorem lastResolver_singleton (source : ResolverSource ρ) (process : Process)
    (addr : Address) (record : RecordMmap) :
    lastResolver source process addr [record] =
      record.resolverAt source process addr := by
  cases found : record.resolverAt source process addr <;>
    simp [lastResolver, found]

theorem lastResolver_eq_none {source : ResolverSource ρ} {process : Process}
    {addr : Address} {records : List RecordMmap}
    (apart : ∀ record ∈ records,
      record.resolverAt source process addr = none) :
    lastResolver source process addr records = none := by
  apply List.findSome?_eq_none_iff.mpr
  intro record member
  exact apart record (List.mem_reverse.mp member)

namespace Resolvers

/-- What the entry of a process resolves an address to. -/
def resolvesAt (process : Process) (addr : Address) (r : Resolvers ρ) :
    Option ρ :=
  r[process.pid]?.bind fun map => (map.entryAt addr).map Prod.snd

/-- The resolvers know at least what `base` says. -/
structure Knows (base : Process → Address → Option ρ) (r : Resolvers ρ) :
    Prop where
  sorted : ∀ (pid : Int64) (map : MemoryMap ρ), r[pid]? = some map → map.Sorted
  resolves : ∀ process addr resolver, base process addr = some resolver →
    r.resolvesAt process addr = some resolver

theorem Knows.mono {base other : Process → Address → Option ρ}
    {r : Resolvers ρ} (knows : Knows base r)
    (less : ∀ process addr resolver, other process addr = some resolver →
      base process addr = some resolver) : Knows other r :=
  ⟨knows.sorted, fun process addr resolver known =>
    knows.resolves process addr resolver (less process addr resolver known)⟩

theorem processFunctionMap_sorted {source : ResolverSource ρ}
    {process : Process} {map : MemoryMap ρ}
    (made : source.processFunctionMap process = .ok map) : map.Sorted := by
  rw [ResolverSource.processFunctionMap,
    Range.ofBounds_eq_ok (Address.le_max _)] at made
  simp only [bind, Except.bind] at made
  have empty : MemoryMap.Sorted ([] : MemoryMap ρ) := List.Pairwise.nil
  obtain ⟨kernel, emplaced, effect⟩ := MemoryMap.emplace_spec
    ⟨⟨source.kallsymsStart, .max, Address.le_max _⟩, 0⟩ empty source.kallsyms
  rw [emplaced] at made
  dsimp only at made
  cases perfMap : source.perfMap process with
  | error _ => simp [perfMap] at made
  | ok entries =>
      rw [perfMap] at made
      cases entries with
      | none =>
          cases made
          exact effect.sorted
      | some entry =>
          obtain ⟨result, perfEmplaced, perfEffect⟩ :=
            MemoryMap.emplace_spec entry.1 effect.sorted entry.2
          have same : result = map := by
            simpa [perfEmplaced] using made
          exact same ▸ perfEffect.sorted

theorem mapOf_sorted {source : ResolverSource ρ} {process : Process}
    {r : Resolvers ρ} {map : MemoryMap ρ}
    (sorted : ∀ (pid : Int64) (map : MemoryMap ρ),
      r[pid]? = some map → map.Sorted)
    (made : r.mapOf source process = .ok map) : map.Sorted := by
  unfold mapOf at made
  cases entry : r[process.pid]? with
  | none =>
      rw [entry] at made
      exact processFunctionMap_sorted made
  | some old =>
      rw [entry] at made
      cases made
      exact sorted _ _ entry

theorem Knows.insertIfNew {base : Process → Address → Option ρ}
    {r : Resolvers ρ} (knows : Knows base r) (pid : Int64) {map : MemoryMap ρ}
    (sorted : map.Sorted) : Knows base (r.insertIfNew pid map) := by
  constructor
  case sorted =>
    intro other found' found
    rw [TreeMap.getElem?_insertIfNew] at found
    split at found
    · cases found
      exact sorted
    · exact knows.sorted _ _ found
  case resolves =>
    intro process addr resolver known
    have before := knows.resolves process addr resolver known
    unfold resolvesAt at before ⊢
    rw [TreeMap.getElem?_insertIfNew]
    obtain ⟨old, found, _⟩ := Option.bind_eq_some_iff.mp before
    have present : process.pid ∈ r := by
      rw [TreeMap.mem_iff_isSome_getElem?, found]
      rfl
    rw [if_neg ?_]
    · exact before
    · intro both
      obtain ⟨same, absent⟩ := both
      rw [LawfulEqOrd.compare_eq_iff_eq] at same
      exact absent (same ▸ present)

theorem Knows.fork {base : Process → Address → Option ρ} {r : Resolvers ρ}
    (knows : Knows base r) (parent child : Process) :
    Knows base (r.fork parent child) := by
  unfold Resolvers.fork
  cases entry : r[parent.pid]? with
  | none => exact knows
  | some map => exact knows.insertIfNew _ (knows.sorted _ _ entry)

theorem resolvesAt_fork {r : Resolvers ρ} {parent child : Process}
    (fresh : r[child.pid]? = none) {addr : Address} {resolver : ρ}
    (known : r.resolvesAt parent addr = some resolver) :
    (r.fork parent child).resolvesAt child addr = some resolver := by
  unfold resolvesAt at known
  obtain ⟨map, entry, found⟩ := Option.bind_eq_some_iff.mp known
  have absent : child.pid ∉ r := by
    rw [TreeMap.mem_iff_isSome_getElem?, fresh]
    simp
  have copied : (r.fork parent child)[child.pid]? = some map := by
    simp only [fork, entry]
    rw [TreeMap.getElem?_insertIfNew, if_pos ⟨ReflCmp.compare_self, absent⟩]
  rw [resolvesAt, copied]
  exact found

/-- Moving the record into the resolvers truncates no mapping of its process,
and the entry of its process can be made if it is missing. -/
def Fits (source : ResolverSource ρ) (r : Resolvers ρ) (record : RecordMmap) :
    Prop :=
  ∀ range, record.range = .ok range →
    source.functionResolverFor record.filename ≠ none →
      ∃ map, r.mapOf source record.process = .ok map ∧
        ∀ x ∈ map, ¬ MemoryMap.Truncates ⟨range, record.pgoff⟩ x.1

/-- The map of a process, where it is made, knows what was known of it. -/
theorem Knows.mapOf {base : Process → Address → Option ρ}
    {source : ResolverSource ρ} {r : Resolvers ρ} (knows : Knows base r)
    {process : Process} {map : MemoryMap ρ}
    (made : r.mapOf source process = .ok map) {addr : Address} {resolver : ρ}
    (known : base process addr = some resolver) :
    (map.entryAt addr).map Prod.snd = some resolver := by
  have before := knows.resolves process addr resolver known
  obtain ⟨old, found, resolved⟩ := Option.bind_eq_some_iff.mp before
  rw [Resolvers.mapOf, found] at made
  cases made
  exact resolved

/-- Replacing the map of a process keeps what the new map knows. -/
theorem Knows.insert {base : Process → Address → Option ρ} {r : Resolvers ρ}
    (knows : Knows base r) {process : Process} {map : MemoryMap ρ}
    (sorted : map.Sorted) {update : Process → Address → Option ρ}
    (others : ∀ other, other ≠ process → update other = base other)
    (resolves : ∀ addr resolver, update process addr = some resolver →
      (map.entryAt addr).map Prod.snd = some resolver) :
    Knows update (r.insert process.pid map) := by
  constructor
  case sorted =>
    intro pid other found
    rw [TreeMap.getElem?_insert] at found
    split at found
    · cases found
      exact sorted
    · exact knows.sorted _ _ found
  case resolves =>
    intro other addr resolver known
    unfold resolvesAt
    rw [TreeMap.getElem?_insert]
    by_cases same : other = process
    · subst same
      rw [if_pos ReflCmp.compare_self]
      exact resolves addr resolver known
    · have different : ¬ compare process.pid other.pid = .eq := by
        rw [LawfulEqOrd.compare_eq_iff_eq]
        intro samePid
        apply same
        cases other
        cases process
        exact congrArg Process.mk samePid.symm
      rw [if_neg different]
      rw [others other same] at known
      exact knows.resolves other addr resolver known

theorem Knows.emplaceResolver {base : Process → Address → Option ρ}
    {source : ResolverSource ρ} {r next : Resolvers ρ} (knows : Knows base r)
    {record : RecordMmap} (fits : Fits source r record)
    (emplaced : r.emplaceResolver source record = .ok next) :
    Knows (fun process addr =>
      (record.resolverAt source process addr).or (base process addr)) next := by
  have others : ∀ other, other ≠ record.process →
      (fun addr => (record.resolverAt source other addr).or (base other addr)) =
        base other := by
    intro other different
    funext addr
    simp [RecordMmap.resolverAt, Ne.symm different]
  unfold Resolvers.emplaceResolver at emplaced
  cases shape : record.range with
  | error failure =>
      rw [shape] at emplaced
      cases emplaced
      apply knows.mono
      intro process addr resolver known
      simpa [RecordMmap.resolverAt, RecordMmap.covers, shape] using known
  | ok range =>
      rw [shape] at emplaced
      dsimp only at emplaced
      cases file : source.functionResolverFor record.filename with
      | none =>
          -- The record says nothing; at most the entry has been made.
          have silent : ∀ process addr,
              (record.resolverAt source process addr).or (base process addr) =
                base process addr := by
            intro process addr
            simp [RecordMmap.resolverAt, file]
          simp only [silent]
          cases made : r.mapOf source record.process with
          | error failure =>
              rw [made] at emplaced
              dsimp only at emplaced
              split at emplaced
              · cases emplaced
                exact knows
              · cases emplaced
          | ok map =>
              rw [made, file] at emplaced
              cases emplaced
              exact knows.insertIfNew _ (mapOf_sorted knows.sorted made)
      | some fr =>
          obtain ⟨map, made, untouched⟩ := fits range shape (by simp [file])
          have mapSorted := mapOf_sorted knows.sorted made
          obtain ⟨result, performed, effect⟩ := MemoryMap.emplace_spec
            ⟨range, record.pgoff⟩ mapSorted fr
          simp only [made, file, performed] at emplaced
          cases emplaced
          apply knows.insert effect.sorted others
          intro addr resolver known
          by_cases inside :
              (Mapping.mk range record.pgoff).Contains addr
          · have covers : record.covers addr = true := by
              simpa [RecordMmap.covers, shape] using inside
            have same : fr = resolver := by
              simpa [RecordMmap.resolverAt, covers, file] using known
            rw [effect.entryAt_new inside, ← same]
            rfl
          · have outside : record.covers addr = false := by
              rw [← Bool.not_eq_true]
              simpa [RecordMmap.covers, shape] using inside
            have before : base record.process addr = some resolver := by
              simpa [RecordMmap.resolverAt, outside] using known
            have resolved := knows.mapOf made before
            obtain ⟨x, found, content⟩ := Option.map_eq_some_iff.mp resolved
            have member :=
              ((MemoryMap.entryAt_eq_some_iff mapSorted).mp found).1
            obtain ⟨y, foundAfter, piece⟩ := effect.entryAt_whole mapSorted
              inside found (untouched x member)
            rw [foundAfter, Option.map_some, piece.content, content]

/-- All records fit, each where it is moved. -/
def FitAll (source : ResolverSource ρ) (r : Resolvers ρ)
    (records : List RecordMmap) : Prop :=
  AllowedRun (Resolvers.emplaceResolver source) (Fits source) r records

theorem Knows.emplaceAll {base : Process → Address → Option ρ}
    {source : ResolverSource ρ} {r next : Resolvers ρ} (knows : Knows base r)
    {records : List RecordMmap} (fit : FitAll source r records)
    (emplaced : run (Resolvers.emplaceResolver source) r records = .ok next) :
    Knows (fun process addr =>
      (lastResolver source process addr records).or (base process addr))
      next := by
  induction records generalizing base r with
  | nil =>
      cases emplaced
      exact knows
  | cons record records induction =>
      rw [run] at emplaced
      cases moved : r.emplaceResolver source record with
      | error _ =>
          rw [moved] at emplaced
          cases emplaced
      | ok middle =>
          rw [moved] at emplaced
          have known := induction (knows.emplaceResolver fit.1 moved)
            (fit.2 middle moved) emplaced
          apply known.mono
          intro process addr resolver last
          rw [← List.singleton_append, lastResolver_append,
            lastResolver_singleton, Option.or_assoc] at last
          exact last

end Resolvers

/-- The mapping record an action hands to a sample writer. -/
def MonitorAction.mmap? : MonitorAction → Option RecordMmap
  | .handle _ (.mmap mmapEvent) => some mmapEvent
  | _ => none

/-- The mapping records handled so far. -/
def handled (actions : List MonitorAction) : List RecordMmap :=
  actions.filterMap MonitorAction.mmap?

theorem handled_concat (actions : List MonitorAction)
    (action : MonitorAction) :
    handled (actions ++ [action]) = handled actions ++ action.mmap?.toList := by
  cases found : action.mmap? <;> simp [handled, found]

/-- The records a thread keeps. -/
def ScopeMonitor.cached (monitor : ScopeMonitor) : List RecordMmap :=
  match monitor.sampleWriter with
  | none => []
  | some writer => writer.cachedMmapEvents

namespace SampleWriter

@[simp] theorem adjustTimepoints_cached (tp : TimePoint) (w : SampleWriter) :
    (w.adjustTimepoints tp).1.cachedMmapEvents = w.cachedMmapEvents := rfl

theorem updateCallingContext_cached {process : Process} {thread : Thread}
    {tp : TimePoint} {switchOut : Bool} {w next : SampleWriter}
    (updated : w.updateCallingContext process thread tp switchOut = .ok next) :
    next.cachedMmapEvents = w.cachedMmapEvents := by
  unfold updateCallingContext beginThread at updated
  split at updated
  · cases updated
    rfl
  · dsimp only at updated
    split at updated
    · cases updated
    · cases updated
      split <;> rfl

theorem handle_cached {w next : SampleWriter} {record : Record}
    (handled : w.handle record = .ok next) :
    next.cachedMmapEvents = w.cachedMmapEvents ++
      match record with
      | .mmap mmapEvent => [mmapEvent]
      | _ => [] := by
  cases record with
  | mmap mmapEvent =>
      cases handled
      rfl
  | sample sample =>
      simp only [handle, handleSample] at handled
      split at handled
      · cases handled
      · rename_i middle updated
        split at handled
        · cases handled
        · cases handled
          have kept := updateCallingContext_cached updated
          rw [adjustTimepoints_cached] at kept
          rw [List.append_nil]
          exact kept
  | switchCpuWide contextSwitch =>
      simp only [handle, handleSwitchCpuWide] at handled
      split at handled
      · cases handled
      · have kept := updateCallingContext_cached handled
        rw [adjustTimepoints_cached] at kept
        rw [List.append_nil]
        exact kept
  | switch contextSwitch =>
      simp only [handle, handleSwitch] at handled
      split at handled
      · cases handled
      · split at handled
        · cases handled
        · rename_i middle updated
          cases handled
          have kept := updateCallingContext_cached updated
          rw [adjustTimepoints_cached] at kept
          rw [List.append_nil]
          exact kept

theorem end_cached {w next : SampleWriter} {now : TimePoint}
    (ended : w.end_ now = .ok next) :
    next.cachedMmapEvents = w.cachedMmapEvents := by
  unfold end_ at ended
  split at ended
  · cases ended
    rfl
  · dsimp only at ended
    split at ended
    · cases ended
    · cases ended
      split <;> rfl

end SampleWriter

theorem ScopeMonitor.close_eq {source : ResolverSource ρ} {now : TimePoint}
    {r next : Resolvers ρ} {monitor : ScopeMonitor}
    (closed : monitor.close source now r = .ok next) :
    run (Resolvers.emplaceResolver source) r monitor.cached = .ok next := by
  unfold close at closed
  obtain ⟨_ | writer⟩ := monitor
  · exact closed
  · simp only [stop] at closed
    cases ended : writer.end_ now with
    | error _ => simp [ended] at closed
    | ok last =>
        rw [ended] at closed
        have same := SampleWriter.end_cached ended
        simp only [cached, ← same]
        exact closed

namespace ProcessMonitor

/-- The records a thread of the monitor keeps. -/
def cached (thread : Thread) (m : ProcessMonitor ρ) : List RecordMmap :=
  match m.threads[thread.tid]? with
  | none => []
  | some monitor => monitor.cached

/-- A live thread keeps the record. -/
def Caches (m : ProcessMonitor ρ) (record : RecordMmap) : Prop :=
  ∃ (tid : Int64) (monitor : ScopeMonitor),
    m.threads[tid]? = some monitor ∧ record ∈ monitor.cached

/-- The records the destructor moves, in its order. -/
def remaining (m : ProcessMonitor ρ) : List RecordMmap :=
  m.threads.toList.flatMap fun thread => thread.2.cached

/-- The records an action moves into the resolvers. -/
def movedBy (m : ProcessMonitor ρ) : MonitorAction → List RecordMmap
  | .exitThread thread _ => m.cached thread
  | _ => []

/-- The records a run has moved into the resolvers. -/
def moved (config : MonitorConfig) (source : ResolverSource ρ) :
    ProcessMonitor ρ → List MonitorAction → List RecordMmap
  | _, [] => []
  | m, action :: actions =>
      match m.step config source action with
      | .error _ => []
      | .ok next => m.movedBy action ++ moved config source next actions

theorem moved_concat {config : MonitorConfig} {source : ResolverSource ρ}
    {start m next : ProcessMonitor ρ} {actions : List MonitorAction}
    {action : MonitorAction}
    (reached : run (step config source) start actions = .ok m)
    (stepped : m.step config source action = .ok next) :
    moved config source start (actions ++ [action]) =
      moved config source start actions ++ m.movedBy action := by
  induction actions generalizing start with
  | nil =>
      cases reached
      simp [moved, stepped]
  | cons first actions induction =>
      rw [run] at reached
      cases firstStep : start.step config source first with
      | error _ =>
          rw [firstStep] at reached
          cases reached
      | ok middle =>
          rw [firstStep] at reached
          simp only [List.cons_append, moved, firstStep, List.append_assoc,
            induction reached]

theorem movedBy_caches {m : ProcessMonitor ρ} {action : MonitorAction}
    {record : RecordMmap} (member : record ∈ m.movedBy action) :
    m.Caches record := by
  cases action with
  | exitThread thread now =>
      simp only [movedBy, cached] at member
      cases found : m.threads[thread.tid]? with
      | none => simp [found] at member
      | some monitor =>
          rw [found] at member
          exact ⟨_, monitor, found, member⟩
  | insertProcess parent child constructed now => cases member
  | insertThread child constructed now => cases member
  | handle thread record => cases member

theorem remaining_caches {m : ProcessMonitor ρ} {record : RecordMmap}
    (member : record ∈ m.remaining) : m.Caches record := by
  obtain ⟨⟨tid, monitor⟩, inThreads, kept⟩ := List.mem_flatMap.mp member
  exact ⟨tid, monitor, TreeMap.mem_toList_iff_getElem?_eq_some.mp inThreads,
    kept⟩

/-- Inserting a thread leaves the resolvers alone and keeps no new record. -/
theorem insertThread_spec {config : MonitorConfig} {child : Thread}
    {constructed : Bool} {now : TimePoint} {m next : ProcessMonitor ρ}
    (inserted : m.insertThread config child constructed now = .ok next) :
    next.resolvers = m.resolvers ∧
      ∀ record, next.Caches record → m.Caches record := by
  unfold insertThread at inserted
  split at inserted
  · cases inserted
    exact ⟨rfl, fun _ caches => caches⟩
  · split at inserted
    · cases inserted
    · cases inserted
      refine ⟨rfl, ?_⟩
      intro record holds
      obtain ⟨tid, monitor, found, kept⟩ := holds
      rw [TreeMap.getElem?_insert] at found
      split at found
      · cases found
        unfold ScopeMonitor.init at kept
        split at kept
        · cases kept
        · cases kept
      · exact ⟨tid, monitor, found, kept⟩

/-- A record is kept after an action only if it was kept before or has just
been handled. -/
theorem Caches.of_step {config : MonitorConfig} {source : ResolverSource ρ}
    {m next : ProcessMonitor ρ} {action : MonitorAction}
    (stepped : m.step config source action = .ok next) {record : RecordMmap}
    (caches : next.Caches record) :
    m.Caches record ∨ action.mmap? = some record := by
  cases action with
  | insertProcess parent child constructed now =>
      simp only [step, insertProcess] at stepped
      split at stepped
      · cases stepped
      · rename_i middle inserted
        cases stepped
        exact .inl ((insertThread_spec inserted).2 record caches)
  | insertThread child constructed now =>
      exact .inl ((insertThread_spec stepped).2 record caches)
  | handle thread handledRecord =>
      simp only [step, handle] at stepped
      split at stepped
      · rename_i writer found
        split at stepped
        · cases stepped
        · rename_i after handled
          cases stepped
          obtain ⟨tid, monitor, stored, kept⟩ := caches
          rw [TreeMap.getElem?_insert] at stored
          split at stored
          · cases stored
            simp only [ScopeMonitor.cached,
              SampleWriter.handle_cached handled] at kept
            rcases List.mem_append.mp kept with old | new
            · exact .inl ⟨_, _, found, old⟩
            · right
              cases handledRecord with
              | mmap mmapEvent =>
                  rw [List.mem_singleton.mp new]
                  rfl
              | _ => cases new
          · exact .inl ⟨tid, monitor, stored, kept⟩
      · cases stepped
  | exitThread thread now =>
      simp only [step, exitThread] at stepped
      split at stepped
      · cases stepped
        exact .inl caches
      · split at stepped
        · cases stepped
        · cases stepped
          obtain ⟨tid, monitor, stored, kept⟩ := caches
          rw [TreeMap.getElem?_erase] at stored
          split at stored
          · cases stored
          · exact .inl ⟨tid, monitor, stored, kept⟩

/-- An action adds to the resolvers what the records it moves say. -/
theorem knows_step {config : MonitorConfig} {source : ResolverSource ρ}
    {base : Process → Address → Option ρ} {m next : ProcessMonitor ρ}
    (knows : m.resolvers.Knows base) {action : MonitorAction}
    (fit : m.resolvers.FitAll source (m.movedBy action))
    (stepped : m.step config source action = .ok next) :
    next.resolvers.Knows fun process addr =>
      (lastResolver source process addr (m.movedBy action)).or
        (base process addr) := by
  cases action with
  | insertProcess parent child constructed now =>
      simp only [step, insertProcess] at stepped
      split at stepped
      · cases stepped
      · rename_i middle inserted
        cases stepped
        change (middle.resolvers.fork parent child).Knows base
        rw [(insertThread_spec inserted).1]
        exact knows.fork parent child
  | insertThread child constructed now =>
      change next.resolvers.Knows base
      rw [(insertThread_spec stepped).1]
      exact knows
  | handle thread record =>
      simp only [step, handle] at stepped
      split at stepped
      · split at stepped
        · cases stepped
        · cases stepped
          exact knows
      · cases stepped
  | exitThread thread now =>
      simp only [step, exitThread] at stepped
      simp only [movedBy, cached] at fit ⊢
      cases found : m.threads[thread.tid]? with
      | none =>
          rw [found] at stepped
          cases stepped
          exact knows
      | some monitor =>
          rw [found] at stepped fit
          dsimp only at stepped fit ⊢
          split at stepped
          · cases stepped
          · rename_i resolvers closed
            cases stepped
            exact knows.emplaceAll fit (ScopeMonitor.close_eq closed)

theorem destroy_eq {source : ResolverSource ρ} {now : Int64 → TimePoint}
    {m : ProcessMonitor ρ} {resolvers : Resolvers ρ}
    (destroyed : m.destroy source now = .ok resolvers) :
    run (Resolvers.emplaceResolver source) m.resolvers m.remaining =
      .ok resolvers := by
  unfold destroy at destroyed
  unfold remaining
  generalize m.threads.toList = threads at destroyed ⊢
  generalize m.resolvers = before at destroyed ⊢
  induction threads generalizing before with
  | nil => exact destroyed
  | cons thread threads induction =>
      rw [run] at destroyed
      cases closed : thread.2.close source (now thread.1) before with
      | error _ =>
          rw [closed] at destroyed
          cases destroyed
      | ok middle =>
          rw [closed] at destroyed
          rw [List.flatMap_cons, run_append, ScopeMonitor.close_eq closed]
          exact induction middle destroyed

end ProcessMonitor

end Lo2s
