import Lo2s.Foundation.ParentLinks
import Lo2s.TraceProcesses

/-!
# The process tree

Seen through the parents of its nodes, a call of `emplace_process` adds a node
below a known one or below the root, or gives a known node a new parent.  The
second can close a cycle.
-/

namespace Lo2s

open Foundation Stateful ParentLinks

namespace TraceLibrary

variable {ρ : Type} {library : TraceLibrary ρ}

/-- The parents of the nodes. -/
def linksOf (library : TraceLibrary ρ) (r : TraceRegistry ρ) :
    ParentLinks Process :=
  library.links r.definitions

/-- What a call does to the parents. -/
def linksAfter (call : EmplaceProcess) (links : ParentLinks Process) :
    ParentLinks Process :=
  if links call.process = none then
    links.relink call.process
      (if call.parent = .noParent ∨ links call.parent = none then none
      else some call.parent)
  else if call.parent = .noParent then links
  else if links call.parent = none then
    (links.relink call.parent none).relink call.process (some call.parent)
  else links.relink call.process (some call.parent)

/-- The parents stay as they are, and so does what has been defined. -/
structure Keeps (library : TraceLibrary ρ) (r next : TraceRegistry ρ) :
    Prop where
  links : library.linksOf next = library.linksOf r
  has : library.has next.definitions = library.has r.definitions

theorem Keeps.refl (r : TraceRegistry ρ) : library.Keeps r r := ⟨rfl, rfl⟩

instance : Std.Refl library.Keeps := ⟨Keeps.refl⟩

instance : IsTrans (TraceRegistry ρ) library.Keeps where
  trans _ _ _ left right :=
    ⟨right.links.trans left.links, right.has.trans left.has⟩

/-- A computation that keeps the parents and throws nothing but
`std::out_of_range`. -/
private structure Renames (library : TraceLibrary ρ) (body : Defining ρ Unit) :
    Prop where
  moves : Moves library.Keeps body
  throws : Throws (· = .outOfRange) body

private theorem Renames.bind {first second : Defining ρ Unit}
    (left : Renames library first) (right : Renames library second) :
    Renames library (first >>= fun _ => second) where
  moves := moves_bind left.moves fun _ => right.moves
  throws := throws_bind left.throws fun _ => right.throws

private theorem renameDefinition_renames (lawful : library.Lawful)
    (key : TraceKey) (name : String) :
    Renames library (library.renameDefinition key name) where
  moves := by
    apply moves_get_bind
    intro r
    split_ifs with known
    · exact ⟨lawful.links_rename name known, lawful.has_rename name known⟩
    · exact Keeps.refl r
  throws := by
    apply throws_get_bind
    intro r
    split_ifs
    · exact throws_set _
    · exact throws_throw rfl

private theorem renameProcessNode_renames (lawful : library.Lawful)
    (process : Process) (name : String) :
    Renames library (library.renameProcessNode process name) where
  moves := by
    apply moves_get_bind
    intro r
    split_ifs with known
    · have there := Option.isSome_iff_ne_none.mp known
      exact ⟨lawful.links_renameNode name there,
        lawful.has_renameNode name there⟩
    · exact Keeps.refl r
  throws := by
    apply throws_get_bind
    intro r
    split_ifs
    · exact throws_set _
    · exact throws_throw rfl

/-- Where nothing but `std::out_of_range` is thrown, catching it succeeds. -/
private theorem catchOutOfRange_renames {body : Defining ρ Unit}
    (renames : Renames library body) (r : TraceRegistry ρ) :
    ∃ next, catchOutOfRange body r = (.ok (), next) ∧ library.Keeps r next := by
  have moves := renames.moves r
  have throws := renames.throws r
  simp only [catchOutOfRange, tryCatch_apply]
  rcases result : body r with ⟨thrown | _, next⟩
  · rw [result] at moves throws
    have outOfRange : thrown = .outOfRange := throws thrown rfl
    subst outOfRange
    exact ⟨next, rfl, moves⟩
  · rw [result] at moves
    exact ⟨next, rfl, moves⟩

private theorem Renames.of_succeeds {body : Defining ρ Unit}
    (succeeds : ∀ r, ∃ next, body r = (.ok (), next) ∧ library.Keeps r next) :
    Renames library body where
  moves := by
    intro r
    obtain ⟨next, result, same⟩ := succeeds r
    rw [result]
    exact same
  throws := by
    intro r thrown result
    obtain ⟨next, fine, _⟩ := succeeds r
    rw [fine] at result
    cases result

private theorem renameSampleLocation_renames (lawful : library.Lawful)
    (thread : Thread) (name : String) :
    Renames library (library.renameSampleLocation thread name) := by
  have renamed := renameDefinition_renames lawful (.sampleLocation thread) name
  constructor
  · apply moves_get_bind
    intro r
    split_ifs
    · exact renamed.moves r
    · exact Keeps.refl r
  · apply throws_get_bind
    intro r
    split_ifs
    · exact renamed.throws
    · exact throws_pure _

theorem updateThread_spec (lawful : library.Lawful) (thread : Thread)
    (name : String) (r : TraceRegistry ρ) :
    ∃ next, library.updateThread thread name r = (.ok (), next) ∧
      library.Keeps r next := by
  have stored : Renames library (setThreadName thread name) :=
    ⟨fun _ => ⟨rfl, rfl⟩, fun _ _ result => nomatch result⟩
  unfold updateThread
  split_ifs
  · exact ⟨r, rfl, .refl r⟩
  · apply catchOutOfRange_renames
    apply Renames.bind
    · exact renameDefinition_renames lawful _ _
    · exact (renameSampleLocation_renames lawful _ _).bind stored

theorem updateProcessName_spec (lawful : library.Lawful) (process : Process)
    (name : String) (r : TraceRegistry ρ) :
    ∃ next, library.updateProcessName process name r = (.ok (), next) ∧
      library.Keeps r next := by
  unfold updateProcessName
  split_ifs
  · exact ⟨r, rfl, .refl r⟩
  · apply catchOutOfRange_renames
    apply (renameProcessNode_renames lawful process name).bind
    apply (renameDefinition_renames lawful _ name).bind
    apply (renameDefinition_renames lawful _ name).bind
    apply (renameDefinition_renames lawful _ name).bind
    exact .of_succeeds (updateThread_spec lawful ⟨process.pid⟩ name)

/-- What has been defined stays. -/
def Grows (library : TraceLibrary ρ) (r next : TraceRegistry ρ) : Prop :=
  ∀ key, library.has r.definitions key → library.has next.definitions key

theorem Keeps.grows {r next : TraceRegistry ρ} (keeps : library.Keeps r next) :
    library.Grows r next := by
  intro key there
  rw [keeps.has]
  exact there

theorem linksOf_createProcess (lawful : library.Lawful)
    (parent : Process) {process : Process} (name : String)
    {r : TraceRegistry ρ} (unknown : library.linksOf r process = none) :
    library.linksOf (library.createProcess parent process name r) =
      (library.linksOf r).relink process
        (if parent = .noParent ∨ library.linksOf r parent = none then none
        else some parent) := by
  have parentNode : (if parent = .noParent then none
      else library.internProcessNode parent r) =
      if parent = .noParent ∨ library.linksOf r parent = none then none
      else some parent := by
    by_cases noParent : parent = .noParent
    · simp [noParent]
    · cases known : library.linksOf r parent with
      | none =>
          rw [linksOf] at known
          simp [noParent, internProcessNode, known]
      | some grandparent =>
          rw [linksOf] at known
          simp [noParent, internProcessNode, known]
  rw [← parentNode]
  simp only [linksOf, createProcess, lawful.links_emplace]
  exact lawful.links_createNode name _ unknown

theorem grows_createProcess (lawful : library.Lawful) (parent : Process)
    {process : Process} (name : String) {r : TraceRegistry ρ}
    (unknown : library.linksOf r process = none) :
    library.Grows r (library.createProcess parent process name r) := by
  intro key there
  simp only [createProcess, lawful.has_emplace]
  rw [lawful.has_createNode name _ unknown]
  exact .inr (.inr (.inr there))

theorem emplaceProcess_apply (parent process : Process) (name : String)
    (r : TraceRegistry ρ) :
    library.emplaceProcess parent process name r =
      if library.linksOf r process = none then
        (.ok (), library.createProcess parent process name r)
      else library.updateProcess parent process name r := by
  rw [emplaceProcess]
  change (if (library.links r.definitions process).isSome then
    library.updateProcess parent process name
    else set (library.createProcess parent process name r) :
      Defining ρ Unit) r = _
  rw [linksOf]
  cases library.links r.definitions process with
  | none => rfl
  | some parent => rfl

/-- A process without a parent is only added if it is not known. -/
theorem emplaceProcess_noParent (lawful : library.Lawful) (process : Process)
    (r : TraceRegistry ρ) :
    ∃ next, library.emplaceProcess .noParent process "" r = (.ok (), next) ∧
      library.linksOf next =
        (if library.linksOf r process = none then
          (library.linksOf r).relink process none
        else library.linksOf r) ∧
      library.Grows r next := by
  by_cases unknown : library.linksOf r process = none
  · refine ⟨library.createProcess .noParent process "" r, ?_, ?_,
      grows_createProcess lawful .noParent "" unknown⟩
    · rw [emplaceProcess_apply, if_pos unknown]
    · rw [if_pos unknown, linksOf_createProcess lawful .noParent "" unknown,
        if_pos (.inl rfl)]
  · refine ⟨r, ?_, ?_, fun _ there => there⟩
    · rw [emplaceProcess_apply, if_neg unknown, updateProcess]
      rfl
    · rw [if_neg unknown]

theorem setParent_spec (lawful : library.Lawful) {parent process : Process}
    {r : TraceRegistry ρ} (parentKnown : library.linksOf r parent ≠ none)
    (known : library.linksOf r process ≠ none) :
    ∃ next, library.setParent parent process r = (.ok (), next) ∧
      library.linksOf next =
        (library.linksOf r).relink process (some parent) ∧
      library.Grows r next := by
  have both : (library.links r.definitions parent).isSome ∧
      (library.links r.definitions process).isSome :=
    ⟨Option.isSome_iff_ne_none.mpr parentKnown,
      Option.isSome_iff_ne_none.mpr known⟩
  refine ⟨{ r with
    definitions := library.linkNode process parent r.definitions }, ?_,
    lawful.links_linkNode known parentKnown, fun key there => ?_⟩
  · change (if (library.links r.definitions parent).isSome ∧
        (library.links r.definitions process).isSome then
      set { r with
        definitions := library.linkNode process parent r.definitions }
      else throw Failure.outOfRange : Defining ρ Unit) r = _
    rw [if_pos both]
    rfl
  · change library.has (library.linkNode process parent r.definitions) key
    rw [lawful.has_linkNode known parentKnown]
    exact there

/-- A known process gets a new name, and a new parent if there is one. -/
theorem updateProcess_spec (lawful : library.Lawful) (parent process : Process)
    (name : String) {r : TraceRegistry ρ}
    (known : library.linksOf r process ≠ none) :
    ∃ next, library.updateProcess parent process name r = (.ok (), next) ∧
      library.linksOf next =
        (if parent = .noParent then library.linksOf r
        else if library.linksOf r parent = none then
          ((library.linksOf r).relink parent none).relink process (some parent)
        else (library.linksOf r).relink process (some parent)) ∧
      library.Grows r next := by
  obtain ⟨renamed, nameResult, kept⟩ :=
    updateProcessName_spec lawful process name r
  rw [updateProcess, bind_apply, nameResult]
  by_cases noParent : parent = .noParent
  · refine ⟨renamed, ?_, ?_, kept.grows⟩
    · simp [noParent]
    · rw [if_pos noParent, kept.links]
  · obtain ⟨emplaced, parentResult, parentLinks, parentGrows⟩ :=
      emplaceProcess_noParent lawful parent renamed
    rw [kept.links] at parentLinks
    have bothKnown : library.linksOf emplaced parent ≠ none ∧
        library.linksOf emplaced process ≠ none := by
      rw [parentLinks]
      split_ifs with parentUnknown
      · exact ⟨by simp [relink], relink_ne_none known⟩
      · exact ⟨parentUnknown, known⟩
    obtain ⟨next, linked, relinked, grows⟩ :=
      setParent_spec lawful bothKnown.1 bothKnown.2
    refine ⟨next, ?_, ?_, fun key there =>
      grows key (parentGrows key (kept.grows key there))⟩
    · simp only [ne_eq, noParent, not_false_eq_true, if_true, bind_apply,
        parentResult]
      exact linked
    · rw [if_neg noParent, relinked, parentLinks]
      split_ifs
      · rfl
      · rfl

/-- A process is always emplaced, and the parents change as described. -/
theorem emplaceProcess_spec (lawful : library.Lawful)
    (parent process : Process) (name : String) (r : TraceRegistry ρ) :
    ∃ next, library.emplaceProcess parent process name r = (.ok (), next) ∧
      library.linksOf next =
        linksAfter ⟨parent, process, name⟩ (library.linksOf r) ∧
      library.Grows r next := by
  rw [emplaceProcess_apply, linksAfter]
  by_cases unknown : library.linksOf r process = none
  · rw [if_pos unknown, if_pos unknown]
    exact ⟨_, rfl, linksOf_createProcess lawful parent name unknown,
      grows_createProcess lawful parent name unknown⟩
  · obtain ⟨next, result, after, grows⟩ :=
      updateProcess_spec lawful parent process name unknown
    rw [if_neg unknown, result, if_neg unknown]
    exact ⟨next, rfl, after, grows⟩

theorem step_spec (lawful : library.Lawful) (r : TraceRegistry ρ)
    (call : EmplaceProcess) :
    ∃ next, library.step r call = .ok next ∧
      library.linksOf next = linksAfter call (library.linksOf r) := by
  obtain ⟨next, result, after, _⟩ :=
    emplaceProcess_spec lawful call.parent call.process call.name r
  rw [step, result]
  exact ⟨next, rfl, after⟩

/-- A known process does not get itself, or a process below it, as its
parent. -/
def Descends (links : ParentLinks Process) (call : EmplaceProcess) : Prop :=
  links call.process ≠ none → call.parent ≠ .noParent →
    ¬ Above links call.process (some call.parent)

theorem tree_linksAfter {links : ParentLinks Process} (tree : Tree links)
    {call : EmplaceProcess} (descends : Descends links call) :
    Tree (linksAfter call links) := by
  have rooted : links call.parent ≠ none →
      Rooted links (some call.parent) := by
    intro known
    obtain ⟨grandparent, found⟩ := Option.ne_none_iff_exists'.mp known
    exact tree call.parent grandparent found
  unfold linksAfter
  split_ifs with unknown orphan noParent parentUnknown
  · exact tree.relink .root fun above => nomatch above
  · have parentRooted := rooted fun absent => orphan (.inr absent)
    exact tree.relink parentRooted (parentRooted.not_above_of_unknown unknown)
  · exact tree
  · -- The parent is new below the root, and only it lies above it.
    have link : (links.relink call.parent none) call.parent = some none :=
      Function.update_self _ _ _
    have extended : Tree (links.relink call.parent none) :=
      tree.relink .root fun above => nomatch above
    apply extended.relink (extended call.parent none link)
    intro above
    generalize same : some call.parent = start at above
    cases above with
    | here =>
        rw [Option.some.inj same] at parentUnknown
        exact unknown parentUnknown
    | link known rest =>
        rw [← Option.some.inj same, link, Option.some.injEq] at known
        cases known
        exact nomatch rest
  · exact tree.relink (rooted parentUnknown) (descends unknown noParent)

theorem descends_of_tree {links : ParentLinks Process} {call : EmplaceProcess}
    (tree : Tree (linksAfter call links)) : Descends links call := by
  intro known noParent above
  by_cases parentUnknown : links call.parent = none
  · generalize same : some call.parent = start at above
    cases above with
    | here =>
        rw [Option.some.inj same] at parentUnknown
        exact known parentUnknown
    | link found _ =>
        rw [← Option.some.inj same, parentUnknown] at found
        cases found
  · rw [linksAfter, if_neg known, if_neg noParent, if_neg parentUnknown] at tree
    exact tree.not_above_of_relink above

/-- Along every sequence of calls, all processes stay connected to the root
exactly when no known process gets itself or a process below it as its
parent. -/
theorem tree_iff (lawful : library.Lawful) {r : TraceRegistry ρ}
    (unused : ∀ process, library.linksOf r process = none)
    (calls : List EmplaceProcess) :
    Always library.step r (fun _ r => Tree (library.linksOf r)) calls ↔
      EveryStep library.step r
        (fun r call => Descends (library.linksOf r) call) calls := by
  refine always_iff (fun _ r => Tree (library.linksOf r)) (fun _ _ => id)
    ?_ ?_ ?_ (.of_forall (fun _ _ => trivial) r calls)
  · intro _ r call tree _ descends
    obtain ⟨next, stepped, after⟩ := step_spec lawful r call
    exact ⟨next, stepped, after ▸ tree_linksAfter tree descends⟩
  · intro _ r call next _ _ stepped tree
    obtain ⟨same, sameStep, after⟩ := step_spec lawful r call
    rw [stepped, Except.ok.injEq] at sameStep
    subst sameStep
    exact descends_of_tree (after ▸ tree)
  · intro process parent known
    rw [unused] at known
    cases known

/-- Two processes, the second of which turns out to be a child of the first. -/
def childFoundLater : List EmplaceProcess :=
  [⟨.noParent, ⟨10⟩, "sh"⟩, ⟨.noParent, ⟨11⟩, "sh"⟩, ⟨⟨10⟩, ⟨11⟩, "make"⟩]

theorem tree_iff_childFoundLater :
    Always ofTables.step .empty (fun _ r => Tree (ofTables.linksOf r))
      childFoundLater := by
  apply (tree_iff ofTables_lawful (fun _ => rfl) childFoundLater).mpr
  have throughout : Throughout (fun earlier call =>
      ∀ r, run ofTables.step .empty earlier = .ok r →
        Descends (ofTables.linksOf r) call) childFoundLater := by
    obtain ⟨first, firstStep, firstLinks⟩ :=
      step_spec ofTables_lawful .empty ⟨.noParent, ⟨10⟩, "sh"⟩
    obtain ⟨second, secondStep, secondLinks⟩ :=
      step_spec ofTables_lawful first ⟨.noParent, ⟨11⟩, "sh"⟩
    rw [firstLinks] at secondLinks
    simp only [childFoundLater, Throughout.cons_iff, Throughout.nil, and_true,
      run, firstStep, secondStep, Except.ok.injEq]
    refine ⟨?_, ?_, ?_⟩
    · rintro r rfl known
      exact absurd rfl known
    · rintro r rfl known
      rw [firstLinks] at known
      exact absurd (by decide) known
    · rintro r rfl _ _ above
      -- Only process 10 lies on its way to the root.
      rw [secondLinks] at above
      cases above with
      | link found rest =>
          cases found
          cases rest
  exact throughout

/-- Process 10 forks process 11 and exits; process 11 forks a process that gets
the id 10. -/
theorem reused_pid_closes_cycle :
    ∃ r, run ofTables.step .empty
        [⟨.noParent, ⟨10⟩, "sh"⟩, ⟨⟨10⟩, ⟨11⟩, "sh"⟩, ⟨⟨11⟩, ⟨10⟩, "sh"⟩] =
          .ok r ∧
      ofTables.linksOf r ⟨10⟩ = some (some ⟨11⟩) ∧
        ofTables.linksOf r ⟨11⟩ = some (some ⟨10⟩) ∧
          ¬ Tree (ofTables.linksOf r) := by
  obtain ⟨first, firstStep, firstLinks⟩ :=
    step_spec ofTables_lawful .empty ⟨.noParent, ⟨10⟩, "sh"⟩
  obtain ⟨second, secondStep, secondLinks⟩ :=
    step_spec ofTables_lawful first ⟨⟨10⟩, ⟨11⟩, "sh"⟩
  obtain ⟨third, thirdStep, thirdLinks⟩ :=
    step_spec ofTables_lawful second ⟨⟨11⟩, ⟨10⟩, "sh"⟩
  rw [secondLinks, firstLinks] at thirdLinks
  have upper : ofTables.linksOf third ⟨10⟩ = some (some ⟨11⟩) := by
    rw [thirdLinks]
    decide
  have lower : ofTables.linksOf third ⟨11⟩ = some (some ⟨10⟩) := by
    rw [thirdLinks]
    decide
  refine ⟨third, ?_, upper, lower, fun tree => ?_⟩
  · simp only [run, firstStep, secondStep, thirdStep]
  · exact (tree ⟨10⟩ _ upper).not_above upper (.link lower .here) .here

end TraceLibrary

end Lo2s
