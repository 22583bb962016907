import Lo2s.PosixPairing

/-!
# One I/O handle for each open file

The handle of a file is found under its thread, its file descriptor and the
number in `instance_`, which every `open()` after the first use of the
descriptor increases.  So no `open()` gets a handle that has been used before,
and what follows it uses its handle until the next `open()` of the descriptor.
-/

namespace Lo2s

open Foundation

/-- A file and a number that `instance_` has had for it. -/
def ThreadFd.numbered (file : ThreadFd) (number : Int32) : ThreadFdInstance :=
  ⟨file.thread, file.fd, number⟩

theorem ThreadFd.numbered_inj {file other : ThreadFd} {number otherNumber : Int32}
    (same : file.numbered number = other.numbered otherNumber) :
    file = other ∧ number = otherNumber := by
  cases file
  cases other
  simpa [numbered, and_comm, and_assoc] using same

namespace PosixInput

/-- The file an input opens. -/
def opens? : PosixInput → Option ThreadFd
  | .event (.openFile header _) => some header.threadFd
  | _ => none

/-- The read or write an input enters, if it is one of the thread. -/
def entered? (thread : Thread) : PosixInput → Option ReadWriteEvent
  | .event (.enter _ entered) =>
      if entered.header.thread = thread then some entered else none
  | _ => none

/-- The read or write a thread has entered last. -/
def lastEntered (thread : Thread) (inputs : List PosixInput) :
    Option ReadWriteEvent :=
  (inputs.filterMap (entered? thread)).getLast?

theorem lastEntered_concat (thread : Thread) (inputs : List PosixInput)
    (input : PosixInput) :
    lastEntered thread (inputs ++ [input]) =
      (input.entered? thread).or (lastEntered thread inputs) := by
  cases entered : input.entered? thread <;>
    simp [lastEntered, List.filterMap_append, entered]

/-- The file an input is about; an exit is about the file of the last operation
its thread has entered. -/
def file? (earlier : List PosixInput) : PosixInput → Option ThreadFd
  | .insertThread _ => none
  | .event (.openFile header _) => some header.threadFd
  | .event (.closeFile header) => some header.threadFd
  | .event (.enter _ entered) => some entered.header.threadFd
  | .event (.exit _ header) =>
      (lastEntered header.thread earlier).map fun entered =>
        ⟨entered.header.fd, header.thread⟩

/-- How often a file has been opened. -/
def openCount (file : ThreadFd) (inputs : List PosixInput) : Nat :=
  inputs.countP fun input => input.opens? = some file

theorem openCount_concat (file : ThreadFd) (inputs : List PosixInput)
    (input : PosixInput) :
    openCount file (inputs ++ [input]) =
      openCount file inputs + if input.opens? = some file then 1 else 0 := by
  simp [openCount, List.countP_append, List.countP_singleton]

end PosixInput

namespace PosixMonitor

variable {ρ η : Type}

/-- The input is handled after the earlier ones, and the event it writes has
the handle. -/
def Uses (trace : PosixTrace ρ η) (ioHandles : ρ) (earlier : List PosixInput)
    (input : PosixInput) (handle : η) : Prop :=
  ∃ m final thread event,
    run (step trace) (init ioHandles) earlier = .ok m ∧
    m.step trace input = .ok final ∧
    final.written = m.written ++ [(thread, event)] ∧ event.handle = handle

/-- Every open file has its own handle. -/
structure OwnHandles (trace : PosixTrace ρ η) (ioHandles : ρ)
    (inputs : List PosixInput) : Prop where
  /-- Opening, closing and entering use a handle. -/
  uses : ∀ earlier event, earlier ++ [.event event] <+: inputs →
    (∀ mode header, event ≠ .exit mode header) →
      ∀ m final, run (step trace) (init ioHandles) earlier = .ok m →
        m.step trace (.event event) = .ok final →
          ∃ handle, Uses trace ioHandles earlier (.event event) handle
  opensDiffer : ∀ earlier first between second file other handle otherHandle,
    earlier ++ first :: between ++ [second] <+: inputs →
      first.opens? = some file → second.opens? = some other →
        Uses trace ioHandles earlier first handle →
          Uses trace ioHandles (earlier ++ first :: between) second
            otherHandle →
            handle ≠ otherHandle
  followsOpen : ∀ earlier opening between use file handle otherHandle,
    earlier ++ opening :: between ++ [use] <+: inputs →
      opening.opens? = some file →
        (∀ input ∈ between ++ [use], input.opens? ≠ some file) →
          use.file? (earlier ++ opening :: between) = some file →
            Uses trace ioHandles earlier opening handle →
              Uses trace ioHandles (earlier ++ opening :: between) use
                otherHandle →
                otherHandle = handle
  beforeFirst : ∀ earlier use between opening file other handle otherHandle,
    earlier ++ use :: between ++ [opening] <+: inputs →
      (∀ input ∈ earlier ++ [use], input.opens? ≠ some file) →
        use.file? earlier = some file → opening.opens? = some other →
          Uses trace ioHandles earlier use handle →
            Uses trace ioHandles (earlier ++ use :: between) opening
              otherHandle →
              handle ≠ otherHandle

section

variable {trace : PosixTrace ρ η} {ioHandles : ρ} {m final : PosixMonitor ρ η}
  {input : PosixInput} {file : ThreadFd}

theorem prepare_instances_of_opens (opens : input.opens? = some file) :
    (m.prepare input).instances = (m.countOpen file).instances := by
  cases input with
  | insertThread _ => cases opens
  | event event =>
  cases event with
  | openFile header _ =>
      obtain rfl := Option.some.inj opens
      rfl
  | closeFile _ => cases opens
  | enter _ _ => cases opens
  | exit _ _ => cases opens

theorem prepare_instances_of_not_opens (opens : input.opens? = none) :
    (m.prepare input).instances = m.instances ∨
      ∃ file, (m.prepare input).instances =
        m.instances.insertIfNew file 0 := by
  cases input with
  | insertThread _ => exact .inl rfl
  | event event =>
  cases event with
  | openFile _ _ => cases opens
  | closeFile header => exact .inr ⟨header.threadFd, rfl⟩
  | enter _ operation => exact .inr ⟨operation.header.threadFd, rfl⟩
  | exit _ header =>
      simp only [prepare]
      split_ifs
      · exact .inl rfl
      · exact .inr ⟨_, rfl⟩

/-- A file that is known keeps its reuse count unless it is opened. -/
theorem lookup_prepare_of_not_opens (opens : input.opens? ≠ some file)
    {reuse : Int32} (known : m.instances.lookup file = some reuse) :
    (m.prepare input).instances.lookup file = some reuse := by
  cases opened : input.opens? with
  | some other =>
      have apart : file ≠ other := fun same => opens (same ▸ opened)
      rw [prepare_instances_of_opens opened]
      simp [countOpen, apart, known]
  | none =>
      rcases prepare_instances_of_not_opens (m := m) opened with
        same | ⟨touched, same⟩
      · rw [same, known]
      · rw [same, FiniteMap.lookup_insertIfNew]
        split_ifs with here
        · subst here
          rw [known, Option.getD_some]
        · exact known

theorem toInt_add_one {reuse : Int32} (small : reuse.toInt + 1 < 2 ^ 31) :
    (reuse + 1).toInt = reuse.toInt + 1 := by
  have lower := Int32.le_toInt reuse
  rw [Int32.toInt_add]
  exact Int.bmod_eq_of_le (by simpa using by omega) (by simpa using by omega)

/-- The reuse count of a file is at most the number of times it has been
opened. -/
def Counted (earlier : List PosixInput) (m : PosixMonitor ρ η) : Prop :=
  ∀ file reuse, m.instances.lookup file = some reuse →
    reuse.toInt ≤ PosixInput.openCount file earlier

private theorem Counted.kept {earlier : List PosixInput}
    (counted : Counted earlier m)
    (few : ∀ file, PosixInput.openCount file (earlier ++ [input]) < 2 ^ 31) :
    Counted (earlier ++ [input]) (m.prepare input) := by
  intro file reuse found
  have few := few file
  rw [PosixInput.openCount_concat] at few ⊢
  cases opened : input.opens? with
  | some other =>
      rw [prepare_instances_of_opens opened, countOpen,
        FiniteMap.lookup_insert] at found
      rw [opened] at few
      split_ifs at found with same known
      · subst same
        rw [if_pos rfl] at few ⊢
        obtain ⟨old, lookup⟩ := FiniteMap.mem_iff_lookup.mp known
        have bound := counted file old lookup
        rw [instanceOf, lookup, Option.getD_some, Option.some.injEq] at found
        subst found
        rw [toInt_add_one (by omega)]
        omega
      · obtain rfl := Option.some.inj found
        exact Int.natCast_nonneg _
      · have bound := counted file reuse found
        omega
  | none =>
      rcases prepare_instances_of_not_opens (m := m) opened with
        same | ⟨touched, same⟩
      · rw [same] at found
        have bound := counted file reuse found
        omega
      · rw [same, FiniteMap.lookup_insertIfNew] at found
        split_ifs at found with here
        · cases known : m.instances.lookup touched with
          | none =>
              rw [known, Option.getD_none, Option.some.injEq] at found
              subst found
              simp
          | some old =>
              rw [known, Option.getD_some, Option.some.injEq] at found
              subst found here
              have bound := counted file old known
              omega
        · have bound := counted file reuse found
          omega

/-- Every event has the handle of an instance of a file up to the one the file
has now. -/
def Registered (trace : PosixTrace ρ η) (m : PosixMonitor ρ η) : Prop :=
  ∀ event ∈ m.written, ∃ (file : ThreadFd) (number current : Int32),
    trace.registry.find m.ioHandles (file.numbered number) =
      some event.2.handle ∧
    m.instances.lookup file = some current ∧ number.toInt ≤ current.toInt

theorem lookup_prepare_mono {earlier : List PosixInput}
    (counted : Counted earlier m)
    (few : ∀ file, PosixInput.openCount file (earlier ++ [input]) < 2 ^ 31)
    {reuse : Int32} (known : m.instances.lookup file = some reuse) :
    ∃ later, (m.prepare input).instances.lookup file = some later ∧
      reuse.toInt ≤ later.toInt := by
  by_cases opened : input.opens? = some file
  · have few := few file
    rw [PosixInput.openCount_concat, if_pos opened] at few
    have bound := counted file reuse known
    refine ⟨reuse + 1, ?_, ?_⟩
    · rw [prepare_instances_of_opens opened, countOpen, AList.lookup_insert,
        if_pos (FiniteMap.mem_iff_lookup.mpr ⟨_, known⟩), instanceOf, known,
        Option.getD_some]
    · rw [toInt_add_one (by omega)]
      omega
  · exact ⟨reuse, lookup_prepare_of_not_opens opened known, le_rfl⟩

theorem lookup_of_mem (known : file ∈ m.instances) :
    m.instances.lookup file = some (m.instanceOf file) := by
  obtain ⟨reuse, found⟩ := FiniteMap.mem_iff_lookup.mp known
  rw [instanceOf, found, Option.getD_some]

theorem mem_touch : file ∈ (m.touch file).instances :=
  FiniteMap.mem_insertIfNew.mpr (.inl rfl)

theorem mem_of_target {event : η → PosixIoEvent η}
    (target : m.target? trace input = some (file, event)) :
    file ∈ (m.prepare input).instances := by
  cases input with
  | insertThread _ => cases target
  | event handled =>
  cases handled with
  | openFile header _ =>
      obtain ⟨rfl, _⟩ := Prod.mk.inj (Option.some.inj target)
      exact (AList.mem_insert _).mpr (.inl rfl)
  | closeFile header =>
      obtain ⟨rfl, _⟩ := Prod.mk.inj (Option.some.inj target)
      exact mem_touch
  | enter _ operation =>
      obtain ⟨rfl, _⟩ := Prod.mk.inj (Option.some.inj target)
      exact mem_touch
  | exit _ header =>
      simp only [target?] at target
      split_ifs at target with completed
      obtain ⟨rfl, _⟩ := Prod.mk.inj (Option.some.inj target)
      simp only [prepare, lastFdOf_touchLastFd]
      rw [if_neg completed]
      exact mem_touch

private theorem Registered.kept {earlier : List PosixInput}
    (registered : Registered trace m) (counted : Counted earlier m)
    (few : ∀ file, PosixInput.openCount file (earlier ++ [input]) < 2 ^ 31)
    (stepped : Stepped trace m input final) : Registered trace final := by
  obtain ⟨_, _, instances, extended, _⟩ := stepped.spec
  -- The handles that have been used are found at files that grow.
  have old : ∀ event ∈ m.written, ∃ (file : ThreadFd) (number current : Int32),
      trace.registry.find final.ioHandles (file.numbered number) =
        some event.2.handle ∧
      final.instances.lookup file = some current ∧
        number.toInt ≤ current.toInt := by
    intro event inside
    obtain ⟨file, number, current, found, known, below⟩ :=
      registered event inside
    obtain ⟨later, knownLater, above⟩ := lookup_prepare_mono counted few known
    exact ⟨file, number, later, extended _ _ found, instances ▸ knownLater,
      below.trans above⟩
  unfold Stepped at stepped
  split at stepped
  · subst stepped
    rw [Registered, prepare_written]
    exact old
  · rename_i file event target
    obtain ⟨handle, ioHandles, preCreated, found, _, rfl⟩ := stepped
    intro written inside
    rw [prepare_written] at inside
    rcases List.mem_append.mp inside with before | here
    · exact old written before
    · rw [List.mem_singleton.mp here]
      refine ⟨file, _, _, ?_, lookup_of_mem (mem_of_target target), le_rfl⟩
      rw [target?_handle target]
      exact found

theorem file_of_opens {opened : ThreadFd} {event : η → PosixIoEvent η}
    (opens : input.opens? = some opened)
    (target : m.target? trace input = some (file, event)) : file = opened := by
  cases input with
  | insertThread _ => cases opens
  | event handled =>
  cases handled with
  | openFile header _ =>
      obtain rfl := Option.some.inj opens
      exact (Prod.mk.inj (Option.some.inj target)).1.symm
  | closeFile _ => cases opens
  | enter _ _ => cases opens
  | exit _ _ => cases opens

theorem handle_of_stepped (stepped : Stepped trace m input final)
    {thread : Thread} {event : PosixIoEvent η}
    (written : final.written = m.written ++ [(thread, event)]) :
    ∃ file make, m.target? trace input = some (file, make) ∧
      trace.registry.find final.ioHandles
        ((m.prepare input).fileInstance file) = some event.handle := by
  unfold Stepped at stepped
  split at stepped
  · rw [stepped, prepare_written] at written
    simp at written
  · rename_i file make target
    obtain ⟨handle, ioHandles, preCreated, found, _, rfl⟩ := stepped
    refine ⟨file, make, target, ?_⟩
    rw [prepare_written, List.append_cancel_left_eq] at written
    obtain ⟨_, same⟩ := Prod.mk.inj (List.singleton_inj.mp written)
    rw [← same, target?_handle target]
    exact found

theorem fresh_of_opens {earlier : List PosixInput}
    (lawful : trace.registry.Lawful)
    (registered : Registered trace m) (counted : Counted earlier m)
    (few : PosixInput.openCount file (earlier ++ [input]) < 2 ^ 31)
    (stepped : Stepped trace m input final) (opens : input.opens? = some file)
    {thread : Thread} {event : PosixIoEvent η}
    (written : final.written = m.written ++ [(thread, event)]) :
    ∀ before ∈ m.written, before.2.handle ≠ event.handle := by
  intro before inside same
  obtain ⟨_, _, _, extended, _⟩ := stepped.spec
  obtain ⟨other, _, target, found⟩ := handle_of_stepped stepped written
  obtain rfl := file_of_opens opens target
  obtain ⟨old, number, current, oldFound, known, below⟩ :=
    registered before inside
  -- Equal handles belong to equal instances of a file.
  obtain ⟨rfl, rfl⟩ := ThreadFd.numbered_inj
    (lawful.find_injective (extended _ _ oldFound) (same ▸ found))
  have bound := counted old current known
  rw [PosixInput.openCount_concat, if_pos opens] at few
  have next : (m.prepare input).instanceOf old = current + 1 := by
    rw [instanceOf, prepare_instances_of_opens opens, countOpen,
      AList.lookup_insert, if_pos (FiniteMap.mem_iff_lookup.mpr ⟨_, known⟩),
      instanceOf, known]
    rfl
  rw [next, toInt_add_one (by omega)] at below
  omega

theorem prefix_written {inputs : List PosixInput}
    (lawful : trace.registry.Lawful)
    (reached : run (step trace) m inputs = .ok final) :
    m.written <+: final.written := by
  apply invariant_of_run (fun _ later => m.written <+: later.written)
    List.prefix_rfl _ reached
  intro _ middle input next before stepped
  obtain ⟨_, _, _, _, added, written, _⟩ := (step_spec lawful stepped).spec
  exact before.trans ⟨added, written.symm⟩

theorem registered_of_run {inputs : List PosixInput}
    (lawful : trace.registry.Lawful)
    (few : ∀ file, PosixInput.openCount file inputs < 2 ^ 31)
    (reached : run (step trace) (init ioHandles) inputs = .ok m) :
    Counted inputs m ∧ Registered trace m := by
  refine invariant_of_run
    (fun earlier m => (∀ file, PosixInput.openCount file earlier < 2 ^ 31) →
      Counted earlier m ∧ Registered trace m) ?_ ?_ reached few
  · intro _
    constructor
    · intro file reuse known
      cases known
    · intro event inside
      cases inside
  · intro earlier m input final holds succeeded few
    obtain ⟨counted, registered⟩ := holds fun file => by
      have whole := few file
      rw [PosixInput.openCount_concat] at whole
      omega
    have stepped := step_spec lawful succeeded
    obtain ⟨_, _, instances, _⟩ := stepped.spec
    refine ⟨?_, registered.kept counted few stepped⟩
    intro file reuse known
    exact counted.kept few file reuse (instances ▸ known)

theorem found_of_run {inputs : List PosixInput} (lawful : trace.registry.Lawful)
    (others : ∀ input ∈ inputs, input.opens? ≠ some file)
    (reached : run (step trace) m inputs = .ok final)
    {number : Int32} {handle : η}
    (known : m.instances.lookup file = some number)
    (found : trace.registry.find m.ioHandles (file.numbered number) =
      some handle) :
    final.instances.lookup file = some number ∧
      trace.registry.find final.ioHandles (file.numbered number) =
        some handle := by
  induction inputs generalizing m with
  | nil =>
      rw [run, Except.ok.injEq] at reached
      exact reached ▸ ⟨known, found⟩
  | cons input inputs induction =>
      rw [run] at reached
      split at reached
      · cases reached
      · rename_i next succeeded
        obtain ⟨_, _, instances, extended, _⟩ :=
          (step_spec lawful succeeded).spec
        have other := others input (List.mem_cons_self ..)
        apply induction
          (fun later inside => others later (List.mem_cons_of_mem _ inside))
          reached
        · rw [instances]
          exact lookup_prepare_of_not_opens other known
        · exact extended _ _ found

private theorem lookup_lastFd_of_entered {thread : Thread}
    {entered : ReadWriteEvent} (enters : input.entered? thread = some entered) :
    (m.prepare input).lastFd.lookup thread = some entered.header.fd := by
  cases input with
  | insertThread _ => cases enters
  | event event =>
  cases event with
  | openFile _ _ => cases enters
  | closeFile _ => cases enters
  | exit _ _ => cases enters
  | enter _ operation =>
      simp only [PosixInput.entered?] at enters
      split_ifs at enters with about
      obtain rfl := Option.some.inj enters
      subst about
      exact AList.lookup_insert _

private theorem lookup_lastFd_of_not_entered {thread : Thread} {fd : Int32}
    (enters : input.entered? thread = none)
    (known : m.lastFd.lookup thread = some fd) :
    (m.prepare input).lastFd.lookup thread = some fd ∨
      (m.prepare input).lastFd.lookup thread = some (-1) := by
  cases input with
  | insertThread inserted =>
      simp only [prepare, insertThread, FiniteMap.lookup_insert]
      split_ifs
      · exact .inr rfl
      · exact .inl known
  | event event =>
  cases event with
  | openFile _ _ => exact .inl known
  | closeFile _ => exact .inl known
  | enter _ operation =>
      simp only [PosixInput.entered?, ite_eq_right_iff, reduceCtorEq,
        imp_false] at enters
      left
      simpa [prepare, touch, remember, Ne.symm enters] using known
  | exit _ header =>
      have touched : (m.touchLastFd header.thread).lastFd.lookup thread =
          some fd := by
        rw [touchLastFd, FiniteMap.lookup_insertIfNew]
        split_ifs with same
        · rw [← same, known, Option.getD_some]
        · exact known
      simp only [prepare]
      split_ifs
      · exact .inl touched
      · simp only [FiniteMap.lookup_insert]
        split_ifs
        · exact .inr rfl
        · exact .inl touched

/-- `last_fd_` is the file descriptor of the operation a thread has entered
last, unless that operation has been completed. -/
theorem lastFd_of_run {inputs : List PosixInput} (lawful : trace.registry.Lawful)
    (reached : run (step trace) (init ioHandles) inputs = .ok m) :
    ∀ thread entered, PosixInput.lastEntered thread inputs = some entered →
      m.lastFd.lookup thread = some entered.header.fd ∨
        m.lastFd.lookup thread = some (-1) := by
  refine invariant_of_run (fun earlier m => ∀ thread entered,
    PosixInput.lastEntered thread earlier = some entered →
      m.lastFd.lookup thread = some entered.header.fd ∨
        m.lastFd.lookup thread = some (-1)) ?_ ?_ reached
  · intro thread entered none
    cases none
  · intro earlier m input final holds succeeded thread entered isLast
    rw [(step_spec lawful succeeded).spec.1]
    rw [PosixInput.lastEntered_concat] at isLast
    cases enters : input.entered? thread with
    | some new =>
        rw [enters, Option.some_or, Option.some.injEq] at isLast
        exact .inl (isLast ▸ lookup_lastFd_of_entered enters)
    | none =>
        rw [enters, Option.none_or] at isLast
        rcases holds thread entered isLast with current | completed
        · exact lookup_lastFd_of_not_entered enters current
        · exact .inr
            ((lookup_lastFd_of_not_entered enters completed).elim id id)

/-- The event an input writes is about the file the history gives it. -/
theorem file_of_target {earlier : List PosixInput}
    (lastFd : ∀ thread entered,
      PosixInput.lastEntered thread earlier = some entered →
        m.lastFd.lookup thread = some entered.header.fd ∨
          m.lastFd.lookup thread = some (-1))
    {about : ThreadFd} (isAbout : input.file? earlier = some about)
    {event : η → PosixIoEvent η}
    (target : m.target? trace input = some (file, event)) : file = about := by
  cases input with
  | insertThread _ => cases target
  | event handled =>
  cases handled with
  | openFile _ _ =>
      obtain rfl := Option.some.inj isAbout
      exact (Prod.mk.inj (Option.some.inj target)).1.symm
  | closeFile _ =>
      obtain rfl := Option.some.inj isAbout
      exact (Prod.mk.inj (Option.some.inj target)).1.symm
  | enter _ _ =>
      obtain rfl := Option.some.inj isAbout
      exact (Prod.mk.inj (Option.some.inj target)).1.symm
  | exit _ header =>
      obtain ⟨entered, isLast, rfl⟩ := Option.map_eq_some_iff.mp isAbout
      simp only [target?] at target
      split_ifs at target with completed
      obtain ⟨rfl, _⟩ := Prod.mk.inj (Option.some.inj target)
      rcases lastFd _ _ isLast with current | done
      · rw [lastFdOf, current, Option.getD_some]
      · rw [lastFdOf, done] at completed
        exact absurd rfl completed

/-- A file that is opened gets a handle that has not been used before. -/
private theorem Uses.differ_of_opens {earlier between : List PosixInput}
    {first second : PosixInput} {handle otherHandle : η}
    (lawful : trace.registry.Lawful)
    (few : ∀ file, PosixInput.openCount file
      (earlier ++ first :: between ++ [second]) < 2 ^ 31)
    (opens : second.opens? = some file)
    (uses : Uses trace ioHandles earlier first handle)
    (later : Uses trace ioHandles (earlier ++ first :: between) second
      otherHandle) : handle ≠ otherHandle := by
  obtain ⟨before, after, thread, event, reached, stepped, written, rfl⟩ := uses
  obtain ⟨m, final, _, _, reachedLater, steppedLater, writtenLater, rfl⟩ := later
  have fewBefore : ∀ file,
      PosixInput.openCount file (earlier ++ first :: between) < 2 ^ 31 := by
    intro file
    have whole := few file
    rw [PosixInput.openCount_concat] at whole
    omega
  obtain ⟨counted, registered⟩ :=
    registered_of_run lawful fewBefore reachedLater
  have inside : (thread, event) ∈ m.written := by
    apply (prefix_written lawful (run_after reachedLater reached stepped)).subset
    rw [written]
    exact List.mem_append_right _ (List.mem_singleton_self _)
  exact fresh_of_opens lawful registered counted (few file)
    (step_spec lawful steppedLater) opens writtenLater (thread, event) inside

private theorem Uses.same_of_opens {earlier between : List PosixInput}
    {opening use : PosixInput} {handle otherHandle : η}
    (lawful : trace.registry.Lawful)
    (opens : opening.opens? = some file)
    (others : ∀ input ∈ between ++ [use], input.opens? ≠ some file)
    (isAbout : use.file? (earlier ++ opening :: between) = some file)
    (uses : Uses trace ioHandles earlier opening handle)
    (later : Uses trace ioHandles (earlier ++ opening :: between) use
      otherHandle) : otherHandle = handle := by
  obtain ⟨before, after, _, _, reached, stepped, written, rfl⟩ := uses
  obtain ⟨m, final, _, _, reachedLater, steppedLater, writtenLater, rfl⟩ := later
  have opened := step_spec lawful stepped
  have used := step_spec lawful steppedLater
  obtain ⟨_, _, instances, _⟩ := opened.spec
  obtain ⟨_, _, _, extended, _⟩ := used.spec
  -- The file and the number its handle is found under.
  obtain ⟨_, _, target, found⟩ := handle_of_stepped opened written
  obtain rfl := file_of_opens opens target
  have known := instances ▸ lookup_of_mem (mem_of_target target)
  obtain ⟨knownLater, foundLater⟩ := found_of_run lawful
    (fun input inside => others input (List.mem_append_left _ inside))
    (run_after reachedLater reached stepped) known found
  have kept := lookup_prepare_of_not_opens
    (others use (List.mem_append_right _ (List.mem_singleton_self _)))
    knownLater
  -- The use is about the same file, and finds the same number.
  obtain ⟨_, _, targetLater, foundUse⟩ := handle_of_stepped used writtenLater
  obtain rfl := file_of_target (lastFd_of_run lawful reachedLater) isAbout
    targetLater
  rw [fileInstance, instanceOf, kept, Option.getD_some] at foundUse
  exact Option.some.inj (foundUse.symm.trans (extended _ _ foundLater))

private theorem exists_uses {earlier : List PosixInput} {event : PosixEvent}
    (lawful : trace.registry.Lawful)
    (notExit : ∀ mode header, event ≠ .exit mode header)
    (reached : run (step trace) (init ioHandles) earlier = .ok m)
    (stepped : m.step trace (.event event) = .ok final) :
    ∃ handle, Uses trace ioHandles earlier (.event event) handle := by
  have spec := step_spec lawful stepped
  cases event with
  | exit mode header => exact absurd rfl (notExit mode header)
  | openFile _ _ =>
      obtain ⟨handle, _, _, _, _, rfl⟩ := spec
      exact ⟨handle, m, _, _, _, reached, stepped, rfl, rfl⟩
  | closeFile _ =>
      obtain ⟨handle, _, _, _, _, rfl⟩ := spec
      exact ⟨handle, m, _, _, _, reached, stepped, rfl, rfl⟩
  | enter _ _ =>
      obtain ⟨handle, _, _, _, _, rfl⟩ := spec
      exact ⟨handle, m, _, _, _, reached, stepped, rfl, rfl⟩

/-- Every open file has its own handle, if no file descriptor of a thread is
opened 2 ^ 31 times. -/
theorem ownHandles (lawful : trace.registry.Lawful) (ioHandles : ρ)
    {inputs : List PosixInput}
    (few : ∀ file, PosixInput.openCount file inputs < 2 ^ 31) :
    OwnHandles trace ioHandles inputs := by
  have fewWithin : ∀ earlier, earlier <+: inputs →
      ∀ file, PosixInput.openCount file earlier < 2 ^ 31 :=
    fun earlier within file =>
      (within.sublist.countP_le).trans_lt (few file)
  exact {
    uses := fun earlier event _ notExit m final reached stepped =>
      exists_uses lawful notExit reached stepped
    opensDiffer := fun earlier first between second file other _ _ within _
        opens uses later =>
      uses.differ_of_opens lawful (fewWithin _ within) opens later
    followsOpen := fun earlier opening between use file _ _ _ opens others
        isAbout uses later =>
      uses.same_of_opens lawful opens others isAbout later
    beforeFirst := fun earlier use between opening file other _ _ within _ _
        opens uses later =>
      uses.differ_of_opens lawful (fewWithin _ within) opens later }

end

/-- A file descriptor that is opened, closed and opened again. -/
def reopened : List PosixInput :=
  [.insertThread ⟨10⟩, .event (.openFile ⟨1, 10, 3⟩ "first"),
    .event (.closeFile ⟨2, 10, 3⟩), .event (.openFile ⟨3, 10, 3⟩ "second")]

theorem ownHandles_reopened : OwnHandles shellTrace ∅ reopened :=
  ownHandles Registry.ofMap_lawful ∅ fun _ =>
    List.countP_le_length.trans_lt (by decide)

end PosixMonitor

end Lo2s
