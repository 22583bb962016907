import Lo2s.MappingRecords

/-!
# A forked process inherits its address space

A fork copies the resolvers of the parent as they are.  The child inherits an
address if the last record of the parent for it has been moved by then, the
child is new, and no mapping gets truncated on the way.
-/

namespace Lo2s

open Foundation

variable {ρ : Type}

namespace ProcessMonitor

/-- Each child resolves every address its parent had a record for at the fork,
and it had no later record for, the way the parent's last record does. -/
def Inherits (source : ResolverSource ρ) (actions : List MonitorAction)
    (resolvers : Resolvers ρ) : Prop :=
  ∀ earlier parent child constructed now later,
    actions = earlier ++ .insertProcess parent child constructed now :: later →
      ∀ addr resolver,
        lastResolver source parent addr (handled earlier) = some resolver →
          (∀ record ∈ handled later,
            record.process = child → record.covers addr = false) →
            resolvers.resolvesAt child addr = some resolver

/-- A fork comes in time for an address of the parent: the child has no entry,
the last record moved for the address has the resolver of the last one
handled, and no live thread keeps a record of the child for it. -/
structure ForkInTime (source : ResolverSource ρ) (m : ProcessMonitor ρ)
    (movedRecords : List RecordMmap) (parent child : Process) (addr : Address)
    (resolver : ρ) : Prop where
  fresh : m.resolvers[child.pid]? = none
  moved : lastResolver source parent addr movedRecords = some resolver
  uncached : ∀ record, m.Caches record →
    record.resolverAt source child addr = none

/-- What the actions so far allow the next one to be: a fork in time for all
addresses of the parent, or an end of a thread whose records fit. -/
def StepInTime (config : MonitorConfig) (source : ResolverSource ρ)
    (earlier : List MonitorAction) (m : ProcessMonitor ρ) :
    MonitorAction → Prop
  | .insertProcess parent child _ _ =>
      ∀ addr resolver,
        lastResolver source parent addr (handled earlier) = some resolver →
          ForkInTime source m (moved config source init earlier) parent child
            addr resolver
  | .exitThread thread _ => m.resolvers.FitAll source (m.cached thread)
  | _ => True

/-- All actions come in time, and so does the destructor. -/
structure InTime (config : MonitorConfig) (source : ResolverSource ρ)
    (actions : List MonitorAction) : Prop where
  steps : Throughout (fun earlier action =>
    ∀ m, run (step config source) init earlier = .ok m →
      StepInTime config source earlier m action) actions
  last : ∀ m, run (step config source) init actions = .ok m →
    m.resolvers.FitAll source m.remaining

theorem StepInTime.fit {config : MonitorConfig} {source : ResolverSource ρ}
    {earlier : List MonitorAction} {m : ProcessMonitor ρ}
    {action : MonitorAction}
    (inTime : StepInTime config source earlier m action) :
    m.resolvers.FitAll source (m.movedBy action) := by
  cases action with
  | exitThread thread now => exact inTime
  | _ => exact trivial

theorem knows_moved {config : MonitorConfig} {source : ResolverSource ρ}
    {actions : List MonitorAction} {m : ProcessMonitor ρ}
    (inTime : Throughout (fun earlier action =>
      ∀ m, run (step config source) init earlier = .ok m →
        StepInTime config source earlier m action) actions)
    (reached : run (step config source) init actions = .ok m) :
    m.resolvers.Knows fun process addr =>
      lastResolver source process addr (moved config source init actions) := by
  induction actions using List.reverseRecOn generalizing m with
  | nil =>
      cases reached
      constructor
      case sorted =>
        intro pid map found
        simp [init] at found
      case resolves =>
        intro process addr resolver known
        cases known
  | append_singleton actions action induction =>
      obtain ⟨middle, middleReached, stepped⟩ :=
        run_concat_eq_ok_iff.mp reached
      obtain ⟨before, now⟩ := Throughout.concat_iff.mp inTime
      have known := knows_step (induction before middleReached)
        (now middle middleReached).fit stepped
      apply known.mono
      intro process addr resolver last
      rw [moved_concat middleReached stepped, lastResolver_append] at last
      exact last

/-- What a monitor keeps of an inherited address until the end: the child
resolves it, and no live thread has another record of the child for it. -/
structure Inherited (source : ResolverSource ρ) (m : ProcessMonitor ρ)
    (child : Process) (addr : Address) (resolver : ρ) : Prop where
  knows : m.resolvers.Knows fun process other =>
    if process = child ∧ other = addr then some resolver else none
  uncached : ∀ record, m.Caches record →
    record.resolverAt source child addr = none

/-- Moving records that say nothing about an inherited address keeps it. -/
theorem Inherited.known {source : ResolverSource ρ} {m : ProcessMonitor ρ}
    {child : Process} {addr : Address} {resolver : ρ}
    (inherited : Inherited source m child addr resolver)
    {records : List RecordMmap}
    (kept : ∀ record ∈ records, m.Caches record) {process : Process}
    {other : Address} {result : ρ}
    (asked : (if process = child ∧ other = addr then some resolver
      else none) = some result) :
    (lastResolver source process other records).or
      (if process = child ∧ other = addr then some resolver else none) =
        some result := by
  by_cases here : process = child ∧ other = addr
  · obtain ⟨rfl, rfl⟩ := here
    have silent : lastResolver source process other records = none :=
      lastResolver_eq_none fun record member =>
        inherited.uncached record (kept record member)
    rw [silent, Option.none_or]
    exact asked
  · rw [if_neg here] at asked
    cases asked

theorem Inherited.step {config : MonitorConfig} {source : ResolverSource ρ}
    {m next : ProcessMonitor ρ} {child : Process} {addr : Address}
    {resolver : ρ} (inherited : Inherited source m child addr resolver)
    {action : MonitorAction}
    (fit : m.resolvers.FitAll source (m.movedBy action))
    (notLater : ∀ record, action.mmap? = some record →
      record.process = child → record.covers addr = false)
    (stepped : m.step config source action = .ok next) :
    Inherited source next child addr resolver := by
  constructor
  case knows =>
    apply (knows_step inherited.knows fit stepped).mono
    intro process other result asked
    exact inherited.known (fun _ member => movedBy_caches member) asked
  case uncached =>
    intro record caches
    rcases caches.of_step stepped with old | new
    · exact inherited.uncached record old
    · by_cases same : record.process = child
      · simp [RecordMmap.resolverAt, notLater record new same]
      · simp [RecordMmap.resolverAt, same]

theorem ForkInTime.inherited {config : MonitorConfig}
    {source : ResolverSource ρ} {m next : ProcessMonitor ρ}
    {movedRecords : List RecordMmap} {parent child : Process} {addr : Address}
    {resolver : ρ}
    (inTime : ForkInTime source m movedRecords parent child addr resolver)
    (knows : m.resolvers.Knows fun process other =>
      lastResolver source process other movedRecords)
    {constructed : Bool} {now : TimePoint}
    (stepped : m.step config source
      (.insertProcess parent child constructed now) = .ok next) :
    Inherited source next child addr resolver := by
  constructor
  case knows =>
    have fit : m.resolvers.FitAll source (m.movedBy
        (.insertProcess parent child constructed now)) := trivial
    constructor
    case sorted => exact (knows_step knows fit stepped).sorted
    case resolves =>
      intro process other result asked
      split at asked
      · rename_i here
        obtain ⟨rfl, rfl⟩ := here
        cases asked
        have parentKnows := knows.resolves parent other resolver inTime.moved
        simp only [step, insertProcess] at stepped
        split at stepped
        · cases stepped
        · rename_i middle inserted
          cases stepped
          change (middle.resolvers.fork parent process).resolvesAt process
            other = some resolver
          rw [(insertThread_spec inserted).1]
          exact Resolvers.resolvesAt_fork inTime.fresh parentKnows
      · cases asked
  case uncached =>
    intro record caches
    rcases caches.of_step stepped with old | new
    · exact inTime.uncached record old
    · cases new

/-- The address stays inherited through the actions after the fork. -/
theorem Inherited.run {config : MonitorConfig} {source : ResolverSource ρ}
    {earlier later : List MonitorAction} {start m : ProcessMonitor ρ}
    {child : Process} {addr : Address} {resolver : ρ}
    (inherited : Inherited source start child addr resolver)
    (forked : Foundation.run (ProcessMonitor.step config source) init earlier =
      .ok start)
    (inTime : Throughout (fun earlier action =>
      ∀ m, Foundation.run (ProcessMonitor.step config source) init earlier =
          .ok m →
        StepInTime config source earlier m action) (earlier ++ later))
    (notLater : ∀ record ∈ handled later,
      record.process = child → record.covers addr = false)
    (reached : Foundation.run (ProcessMonitor.step config source) init
      (earlier ++ later) = .ok m) :
    Inherited source m child addr resolver := by
  induction later using List.reverseRecOn generalizing m with
  | nil =>
      rw [List.append_nil, forked] at reached
      cases reached
      exact inherited
  | append_singleton later action induction =>
      rw [← List.append_assoc] at reached inTime
      obtain ⟨middle, middleReached, stepped⟩ :=
        run_concat_eq_ok_iff.mp reached
      obtain ⟨before, now⟩ := Throughout.concat_iff.mp inTime
      rw [handled_concat] at notLater
      have middleInherited := induction before
        (fun record member => notLater record (List.mem_append_left _ member))
        middleReached
      apply middleInherited.step (now middle middleReached).fit ?_ stepped
      intro record isLast
      apply notLater record
      simp [isLast]

/-- Where all actions come in time, every forked process inherits the address
space of its parent. -/
theorem inherits_of_inTime (config : MonitorConfig) (source : ResolverSource ρ)
    (actions : List MonitorAction) (now : Int64 → TimePoint)
    (m : ProcessMonitor ρ) (resolvers : Resolvers ρ)
    (finished : run (step config source) init actions = .ok m)
    (destroyed : m.destroy source now = .ok resolvers)
    (inTime : InTime config source actions) :
    Inherits source actions resolvers := by
  intro earlier parent child constructed forkTime later split addr resolver
    last notLater
  subst split
  have fork : earlier ++ .insertProcess parent child constructed forkTime ::
      later = (earlier ++ [.insertProcess parent child constructed forkTime]) ++
        later := by simp
  have steps := inTime.steps
  have lastFit := inTime.last m finished
  rw [fork] at finished steps
  -- The monitor just before and just after the fork.
  have forkSteps := steps.earlier (List.prefix_append _ _)
  have forked : ∃ next, run (step config source) init
      (earlier ++ [.insertProcess parent child constructed forkTime]) =
        .ok next := by
    rw [run_append] at finished
    split at finished
    · cases finished
    · exact ⟨_, ‹_›⟩
  obtain ⟨next, nextReached⟩ := forked
  obtain ⟨before, beforeReached, stepped⟩ := run_concat_eq_ok_iff.mp nextReached
  obtain ⟨earlierSteps, forkStep⟩ := Throughout.concat_iff.mp forkSteps
  have knows := knows_moved earlierSteps beforeReached
  have inherited : Inherited source next child addr resolver :=
    (forkStep before beforeReached addr resolver last).inherited knows stepped
  have kept : Inherited source m child addr resolver :=
    inherited.run nextReached steps notLater finished
  have final := (kept.knows.emplaceAll lastFit (destroy_eq destroyed)).resolves
    child addr resolver
  apply final
  exact kept.known (fun _ member => remaining_caches member)
    (if_pos ⟨rfl, rfl⟩)

/-- One page of a binary in process ten. -/
def onePage : RecordMmap := ⟨10, 10, 0x1000, 0x1000, 0, "/bin/sh"⟩

/-- No kernel symbols and no perf maps; a binary resolves to its name. -/
def namesOnly : ResolverSource String :=
  ⟨"[kernel]", .max, fun _ => .ok none, id⟩

/-- Monitors with sample writers. -/
def sampling : MonitorConfig := ⟨true, true, ⟨fun _ => 0⟩, false, ⟨0⟩, ⟨0, 0, 0⟩, 0⟩

/-- Process ten maps a page, its thread ends, and it forks. -/
def forkAfterExit : List MonitorAction :=
  [.insertProcess ⟨0⟩ ⟨10⟩ true 0, .handle ⟨10⟩ (.mmap onePage),
    .exitThread ⟨10⟩ 1, .insertProcess ⟨10⟩ ⟨11⟩ true 1]

theorem forkAfterExit_inTime : InTime sampling namesOnly forkAfterExit := by
  constructor
  case steps =>
    refine Throughout.cons_iff.mpr ⟨?_, Throughout.cons_iff.mpr
      ⟨fun _ _ => trivial, Throughout.cons_iff.mpr ⟨?_, Throughout.cons_iff.mpr
        ⟨?_, Throughout.nil⟩⟩⟩⟩
    · intro m reached addr resolver last
      cases last
    · intro m reached
      cases reached
      refine ⟨?_, fun _ _ => trivial⟩
      intro range shape _
      cases shape
      exact ⟨_, rfl, by decide⟩
    · intro m reached addr resolver last
      cases reached
      constructor
      case fresh => rfl
      case moved => exact last
      case uncached =>
        intro record holds
        obtain ⟨tid, monitor, found, _⟩ := holds
        have live := Std.TreeMap.mem_toList_iff_getElem?_eq_some.mpr found
        cases live
  case last =>
    intro m reached
    cases reached
    exact trivial

theorem inherits_of_inTime_afterExit :
    ∃ m resolvers, run (step sampling namesOnly) init forkAfterExit = .ok m ∧
      m.destroy namesOnly (fun _ => 2) = .ok resolvers ∧
      Inherits namesOnly forkAfterExit resolvers := by
  refine ⟨_, _, rfl, rfl, ?_⟩
  exact inherits_of_inTime sampling namesOnly forkAfterExit (fun _ => 2) _ _ rfl
    rfl forkAfterExit_inTime

/-- Process ten maps a page and forks; its thread is still there. -/
def forkWhileCached : List MonitorAction :=
  [.insertProcess ⟨0⟩ ⟨10⟩ true 0, .handle ⟨10⟩ (.mmap onePage),
    .insertProcess ⟨10⟩ ⟨11⟩ true 0]

/-- The child knows nothing of the page. -/
theorem page_not_inherited :
    ∃ m resolvers, run (step sampling namesOnly) init forkWhileCached = .ok m ∧
      m.destroy namesOnly (fun _ => 1) = .ok resolvers ∧
      ¬ Inherits namesOnly forkWhileCached resolvers := by
  refine ⟨_, _, rfl, rfl, ?_⟩
  intro inherits
  have resolved := inherits _ ⟨10⟩ ⟨11⟩ true 0 []
    (show forkWhileCached =
      [.insertProcess ⟨0⟩ ⟨10⟩ true 0, .handle ⟨10⟩ (.mmap onePage)] ++ _
      from rfl) 0x1000 "/bin/sh" (by rfl) (by simp [handled])
  cases resolved

end ProcessMonitor

end Lo2s
