import Lo2s.CctxDefinitions
import Lo2s.CctxMeaning

/-!
# Reading the definitions of a trace

A reader who follows the links between definitions from the one of a context
sees the contexts that lead to it, back to the last thread, process or system
call, which has no parent.  Addresses are named by the process at the top.
-/

namespace Lo2s

open Foundation KeyOrder

/-- The process that contexts on a path are met in. -/
def processOf (path : List EnteredContext) : Process :=
  path.foldl (fun p cctx => cctx.enteredProcess p) ⟨-1⟩

/-- The contexts on a path from the last one that is defined without a parent. -/
def readable (path : List EnteredContext) : List EnteredContext :=
  path.foldl (fun outer cctx =>
    if cctx.NeedsParent then outer ++ [cctx] else [cctx]) []

theorem processOf_concat (path : List EnteredContext) (cctx : EnteredContext) :
    processOf (path ++ [cctx]) = cctx.enteredProcess (processOf path) :=
  List.foldl_concat ..

theorem readable_concat (path : List EnteredContext) (cctx : EnteredContext) :
    readable (path ++ [cctx]) =
      if cctx.NeedsParent then readable path ++ [cctx] else [cctx] :=
  List.foldl_concat ..

section

variable {left right : List EnteredContext}

theorem processOf_congr (same : EquivalentPaths left right) :
    processOf left = processOf right := by
  refine List.rel_foldl (P := Eq) (R := Equivalent) ?_ rfl same
  rintro p _ rfl cctx other equivalent
  exact EnteredContext.enteredProcess_congr equivalent p

theorem readable_congr (same : EquivalentPaths left right) :
    EquivalentPaths (readable left) (readable right) := by
  refine List.rel_foldl (P := EquivalentPaths) (R := Equivalent) ?_ .nil same
  intro outer others alike cctx other equivalent
  by_cases needs : cctx.NeedsParent
  · have otherNeeds := (EnteredContext.needsParent_congr equivalent).mp needs
    simp only [if_pos needs, if_pos otherNeeds]
    exact List.rel_append alike (.cons equivalent .nil)
  · have otherIsOutermost : ¬ other.NeedsParent := fun otherNeeds =>
      needs ((EnteredContext.needsParent_congr equivalent).mpr otherNeeds)
    simp only [if_neg needs, if_neg otherIsOutermost]
    exact .cons equivalent .nil

end

theorem CctxNames.openmpLineInfo_congr (names : CctxNames) (known : Bool)
    (p : Process) {left right : OMPTCctx} (same : left.rank = right.rank) :
    names.openmpLineInfo known p left = names.openmpLineInfo known p right := by
  rw [← OMPTCctx.eq_iff_rank, OMPTCctx.eq, decide_eq_true_iff] at same
  obtain ⟨type, numThreads, addr⟩ := same
  simp only [openmpLineInfo, ompName, type, numThreads, addr]

namespace Shown

variable {names : CctxNames} {p : Process} {cctx other : EnteredContext}
  {label : CctxLabel}

theorem congr (shown : Shown names p cctx label)
    (equivalent : Equivalent cctx other) : Shown names p other label := by
  have kinds := EnteredContext.type_eq_of_equivalent equivalent
  have members : cctx.context.memberRank = other.context.memberRank :=
    congrArg Prod.snd (EnteredContext.equivalent_iff_rank.mp equivalent)
  have words : ∀ {left right : UInt64},
      toLex ((left.toNat : ℤ), toLex ((0 : ℤ), (0 : ℤ))) =
        toLex ((right.toNat : ℤ), toLex ((0 : ℤ), (0 : ℤ))) → left = right :=
    fun same => UInt64.toNat_inj.mp (Int.ofNat_inj.mp (congrArg Prod.fst same))
  cases shown with
  | thread kind =>
      have otherKind := kinds.symm.trans kind
      simp only [CallingContext.memberRank, kind, otherKind] at members
      have same : cctx.context.t = other.context.t := by
        have tids := Int64.toInt_inj.mp (congrArg Prod.fst members)
        cases left : cctx.context.t
        cases right : other.context.t
        rw [left, right] at tids
        exact congrArg Thread.mk tids
      rw [same]
      exact .thread otherKind
  | process kind =>
      have otherKind := kinds.symm.trans kind
      rw [EnteredContext.p_eq_of_equivalent equivalent otherKind]
      exact .process otherKind
  | syscall kind =>
      have otherKind := kinds.symm.trans kind
      simp only [CallingContext.memberRank, kind, otherKind] at members
      rw [words members]
      exact .syscall otherKind
  | address kind =>
      have otherKind := kinds.symm.trans kind
      simp only [CallingContext.memberRank, kind, otherKind] at members
      rw [words members]
      exact .address otherKind
  | gpuKernel kind =>
      have otherKind := kinds.symm.trans kind
      simp only [CallingContext.memberRank, kind, otherKind] at members
      rw [words members]
      exact .gpuKernel otherKind
  | openmp known kind =>
      have otherKind := kinds.symm.trans kind
      simp only [CallingContext.memberRank, kind, otherKind] at members
      rw [names.openmpLineInfo_congr known p members]
      exact .openmp known otherKind

theorem forall₂_congr {mine theirs : List EnteredContext}
    {labels : List CctxLabel}
    (shown : List.Forall₂ (Shown names p) mine labels)
    (alike : EquivalentPaths mine theirs) :
    List.Forall₂ (Shown names p) theirs labels := by
  induction alike generalizing labels with
  | nil => exact shown
  | cons equivalent _ induction =>
      cases shown with
      | cons first rest => exact .cons (first.congr equivalent) (induction rest)

theorem of_outermost (shown : Shown names p cctx label)
    (outermost : ¬ cctx.NeedsParent) (q : Process) :
    Shown names q cctx label := by
  cases shown with
  | thread kind => exact .thread kind
  | process kind => exact .process kind
  | syscall kind => exact .syscall kind
  | address kind => exact absurd (.inl kind) outermost
  | gpuKernel kind => exact absurd (.inr (.inl kind)) outermost
  | openmp known kind => exact absurd (.inr (.inr kind)) outermost

end Shown

namespace CctxRegistry

variable {σ : Type u} {δ : Type v} {registry : CctxRegistry σ δ}

theorem findOrDefine_cases {cctx : EnteredContext} {parent : Option δ}
    {global grown : Forest EnteredContext δ}
    {child : EnteredContext × Node EnteredContext δ} {s next : MergeState σ}
    (defined : registry.findOrDefine cctx parent global s =
      .ok (grown, child, next)) :
    (∀ query, grown.find? query =
      if Equivalent cctx query then some child else global.find? query) ∧
    ((global.find? cctx = some child ∧ next = s) ∨
      ∃ made state, global.find? cctx = none ∧
        registry.define cctx parent s.p s.registry = .ok (made, state) ∧
        child = (cctx, ⟨made, .nil⟩) ∧ next = { s with registry := state }) := by
  unfold findOrDefine at defined
  cases known : global.find? cctx with
  | some found =>
      rw [known] at defined
      cases defined
      refine ⟨fun query => ?_, .inl ⟨rfl, rfl⟩⟩
      by_cases same : Equivalent cctx query
      · rw [if_pos same, ← Forest.find?_congr same, known]
      · rw [if_neg same]
  | none =>
      rw [known] at defined
      cases made : registry.define cctx parent s.p s.registry with
      | error failure =>
          rw [made] at defined
          cases defined
      | ok result =>
          obtain ⟨newCctx, state⟩ := result
          rw [made] at defined
          simp only [Forest.emplace, known] at defined
          cases defined
          exact ⟨Forest.find?_insert known newCctx,
            .inr ⟨newCctx, state, rfl, rfl, rfl, rfl⟩⟩

theorem mergeNodes_entry_ok {cctx : EnteredContext} {ref : Nat}
    {children siblings : Forest EnteredContext Nat} {parent : Option δ}
    {global merged : Forest EnteredContext δ} {s left : MergeState σ}
    (walked : registry.mergeNodes (.entry cctx ref children siblings) parent
      global s = .ok (merged, left)) :
    ∃ grown child middle table below after,
      registry.findOrDefine cctx parent global s = .ok (grown, child, middle) ∧
      registry.mergeNodes children (some child.2.value) child.2.children
        { middle with p := child.1.enteredProcess middle.p, table := table } =
          .ok (below, after) ∧
      registry.mergeNodes siblings parent
        (grown.update cctx fun child => { child with children := below })
        after = .ok (merged, left) := by
  rw [mergeNodes] at walked
  cases defined : registry.findOrDefine cctx parent global s with
  | error failure => simp [defined] at walked
  | ok result =>
      obtain ⟨grown, child, middle⟩ := result
      simp only [defined] at walked
      split at walked
      · cases walked
      · next table put =>
        split at walked
        · cases walked
        · next below after descended =>
          exact ⟨grown, child, middle, table, below, after, rfl, descended,
            walked⟩

end CctxRegistry

namespace CctxLibrary

variable {ρ : Type u} {δ : Type v} {library : CctxLibrary ρ δ}
  {names : CctxNames} {d next final : CctxDefinitions ρ}
  {path other : List EnteredContext} {definition : δ}

namespace Grows

theorem refl : library.Grows d d := LinkedRegistry.Grows.refl

theorem trans (first : library.Grows d next)
    (second : library.Grows next final) : library.Grows d final :=
  LinkedRegistry.Grows.trans first second

theorem fits (grows : library.Grows d next) (fits : library.Fits next) :
    library.Fits d :=
  LinkedRegistry.Grows.size grows |>.trans fits

end Grows

theorem define_grows (lawful : library.Lawful) {cctx : EnteredContext}
    {parent : Option δ} {p : Process}
    (defined : (library.registry names).define cctx parent p d =
      .ok (definition, next)) : library.Grows d next := by
  have emplaced : ∀ region, library.emplaceKeyed region d = (definition, next) →
      library.Grows d next := by
    intro region same
    cases same
    exact lawful.grows_emplace region _ _
  unfold CctxRegistry.define at defined
  split at defined
  · cases defined
    exact lawful.grows_create none _ _ _
  · cases defined
    exact lawful.grows_create none _ _ _
  · cases defined
    exact lawful.grows_create none _ _ _
  · cases defined
  · cases defined
  · cases defined
  · exact emplaced _ (Except.ok.inj defined)
  · exact emplaced _ (Except.ok.inj defined)
  · exact emplaced _ (Except.ok.inj defined)
  · cases defined

theorem findOrDefine_grows (lawful : library.Lawful) {cctx : EnteredContext}
    {parent : Option δ} {global grown : Forest EnteredContext δ}
    {child : EnteredContext × Node EnteredContext δ}
    {s middle : MergeState (CctxDefinitions ρ)}
    (defined : (library.registry names).findOrDefine cctx parent global s =
      .ok (grown, child, middle)) :
    library.Grows s.registry middle.registry := by
  obtain ⟨_, ⟨_, rfl⟩ | ⟨made, state, _, new, _, rfl⟩⟩ :=
    CctxRegistry.findOrDefine_cases defined
  · exact .refl
  · exact define_grows lawful new

theorem mergeNodes_grows (lawful : library.Lawful)
    {locals : Forest EnteredContext Nat} {parent : Option δ}
    {global merged : Forest EnteredContext δ}
    {s left : MergeState (CctxDefinitions ρ)}
    (walked : (library.registry names).mergeNodes locals parent global s =
      .ok (merged, left)) : library.Grows s.registry left.registry := by
  induction locals generalizing parent global merged s left with
  | nil =>
      cases walked
      exact .refl
  | entry cctx ref children siblings inChildren inSiblings =>
      obtain ⟨grown, child, middle, table, below, after, defined, descended,
        rest⟩ := CctxRegistry.mergeNodes_entry_ok walked
      have here := findOrDefine_grows lawful defined
      have inside := inChildren descended
      exact (here.trans inside).trans (inSiblings rest)

/-- A reader of a definition sees what can be read of a path. -/
def Names (library : CctxLibrary ρ δ) (names : CctxNames)
    (d : CctxDefinitions ρ) (path : List EnteredContext) (definition : δ) :
    Prop :=
  ∃ labels, library.Leads d (library.ref definition) labels ∧
    List.Forall₂ (Shown names (processOf path)) (readable path) labels

theorem Names.mono (shows : library.Names names d path definition)
    (grows : library.Grows d next) (fits : library.Fits next) :
    library.Names names next path definition := by
  obtain ⟨labels, leads, shown⟩ := shows
  exact ⟨labels, LinkedRegistry.Grows.leads grows fits leads, shown⟩

theorem Names.congr (shows : library.Names names d path definition)
    (same : EquivalentPaths path other) :
    library.Names names d other definition := by
  obtain ⟨labels, leads, shown⟩ := shows
  refine ⟨labels, leads, ?_⟩
  rw [← processOf_congr same]
  exact Shown.forall₂_congr shown (readable_congr same)

theorem Defines.named {cctx : EnteredContext} {parent : Option δ}
    {p : Process}
    (defines : Defines library names cctx parent p d definition next)
    (above : ∀ upper, parent = some upper → library.Names names d path upper)
    (inside : cctx.NeedsParent → parent ≠ none)
    (met : cctx.NeedsParent → p = processOf path) :
    library.Names names next (path ++ [cctx]) definition := by
  obtain ⟨label, shown, outermost, nested⟩ := defines.shown
  by_cases needs : cctx.NeedsParent
  · obtain ⟨upper, same⟩ := Option.ne_none_iff_exists'.mp (inside needs)
    obtain ⟨labels, leads, upperShown⟩ := above upper same
    have notProcess : cctx.context.type ≠ .process := by
      intro kind
      simp [EnteredContext.NeedsParent, kind] at needs
    refine ⟨labels ++ [label], nested needs upper labels same leads, ?_⟩
    rw [processOf_concat, EnteredContext.enteredProcess_of_ne notProcess,
      readable_concat, if_pos needs]
    rw [met needs] at shown
    exact List.rel_append upperShown (.cons shown .nil)
  · refine ⟨[label], outermost needs, ?_⟩
    rw [readable_concat, if_neg needs]
    exact .cons (shown.of_outermost needs _) .nil

/-- Every definition of a tree that hangs at `outer` is named right. -/
def NamesAll (library : CctxLibrary ρ δ) (names : CctxNames)
    (d : CctxDefinitions ρ) (outer : List EnteredContext)
    (global : Forest EnteredContext δ) : Prop :=
  ∀ path definition, global.valueAt path = some definition →
    library.Names names d (outer ++ path) definition

theorem NamesAll.mono {outer : List EnteredContext}
    {global : Forest EnteredContext δ}
    (all : library.NamesAll names d outer global)
    (grows : library.Grows d next) (fits : library.Fits next) :
    library.NamesAll names next outer global :=
  fun path definition stored => (all path definition stored).mono grows fits

variable {cctx : EnteredContext} {parent : Option δ}
  {outer : List EnteredContext} {global grown : Forest EnteredContext δ}
  {child : EnteredContext × Node EnteredContext δ}
  {s middle : MergeState (CctxDefinitions ρ)}

/-- The child that is found or defined is named right, and so is all below it. -/
theorem namesAll_child (lawful : library.Lawful)
    (sound : library.Sound s.registry)
    (all : library.NamesAll names s.registry outer global)
    (above : ∀ upper, parent = some upper →
      library.Names names s.registry outer upper)
    (inside : cctx.NeedsParent → parent ≠ none)
    (met : cctx.NeedsParent → s.p = processOf outer)
    (defined : (library.registry names).findOrDefine cctx parent global s =
      .ok (grown, child, middle)) (fits : library.Fits middle.registry) :
    library.Sound middle.registry ∧
      library.Names names middle.registry (outer ++ [cctx]) child.2.value ∧
      library.NamesAll names middle.registry (outer ++ [cctx])
        child.2.children := by
  obtain ⟨_, ⟨found, rfl⟩ | ⟨made, state, _, new, rfl, rfl⟩⟩ :=
    CctxRegistry.findOrDefine_cases defined
  · have stored : ∀ path ref, child.2.valueAt path = some ref →
        library.Names names middle.registry (outer ++ cctx :: path) ref := by
      intro path ref there
      apply all
      rw [Forest.valueAt, found]
      exact there
    refine ⟨sound, stored [] _ rfl, fun path ref there => ?_⟩
    rw [List.append_assoc]
    cases path with
    | nil => cases there
    | cons step path =>
        exact stored (step :: path) ref
          ((Forest.valueAt_children step path child.2).trans there)
  · have defines := define_spec lawful sound new fits
    refine ⟨defines.sound, defines.named above inside met, ?_⟩
    intro path ref there
    simp at there

theorem namesAll_update {below : Forest EnteredContext δ}
    (lookup : ∀ query, grown.find? query =
      if Equivalent cctx query then some child else global.find? query)
    (all : library.NamesAll names d outer global)
    (here : library.Names names d (outer ++ [cctx]) child.2.value)
    (inside : library.NamesAll names d (outer ++ [cctx]) below) :
    library.NamesAll names d outer
      (grown.update cctx fun child => { child with children := below }) := by
  intro path ref stored
  cases path with
  | nil => cases stored
  | cons step path =>
      rw [CctxRegistry.valueAt_grown lookup] at stored
      split_ifs at stored with same
      · have alike : EquivalentPaths (outer ++ [cctx] ++ path)
            (outer ++ step :: path) := by
          rw [List.append_assoc]
          exact List.rel_append (EquivalentPaths.refl outer)
            (List.Forall₂.cons same (EquivalentPaths.refl path))
        refine Names.congr ?_ alike
        cases path with
        | nil =>
            rw [Node.valueAt_nil, Option.some.injEq] at stored
            rw [List.append_nil, ← stored]
            exact here
        | cons next path =>
            rw [Forest.valueAt_children] at stored
            exact inside (next :: path) ref stored
      · exact all (step :: path) ref stored

/-- Something is defined below what needs a process. -/
def NeedsProcess (locals : Forest EnteredContext Nat) : Prop :=
  ∃ path ∈ locals.paths, ∃ needy, path.getLast? = some needy ∧
    needy.NeedsParent

variable {ref : Nat} {locals children siblings : Forest EnteredContext Nat}

theorem NeedsProcess.here (needs : cctx.NeedsParent) :
    NeedsProcess (.entry cctx ref children siblings) :=
  ⟨[cctx], Forest.mem_paths_here, cctx, rfl, needs⟩

theorem NeedsProcess.below (needs : NeedsProcess children) :
    NeedsProcess (.entry cctx ref children siblings) := by
  obtain ⟨path, member, needy, last, needs⟩ := needs
  refine ⟨cctx :: path, Forest.mem_paths_below member, needy, ?_, needs⟩
  rw [List.getLast?_cons, last]
  rfl

theorem NeedsProcess.after (needs : NeedsProcess siblings) :
    NeedsProcess (.entry cctx ref children siblings) := by
  obtain ⟨path, member, needy, last, needs⟩ := needs
  exact ⟨path, Forest.mem_paths_after member, needy, last, needs⟩

theorem mergeNodes_below (lawful : library.Lawful) {upper : δ}
    {merged : Forest EnteredContext δ}
    {left : MergeState (CctxDefinitions ρ)} (noProcess : NoProcess locals)
    (sound : library.Sound s.registry)
    (above : library.Names names s.registry outer upper)
    (all : library.NamesAll names s.registry outer global)
    (met : NeedsProcess locals → s.p = processOf outer)
    (walked : (library.registry names).mergeNodes locals (some upper) global s =
      .ok (merged, left)) (fits : library.Fits left.registry) :
    library.Sound left.registry ∧
      library.NamesAll names left.registry outer merged := by
  induction locals generalizing outer upper global s merged left with
  | nil =>
      cases walked
      exact ⟨sound, all⟩
  | entry cctx ref children siblings inChildren inSiblings =>
      obtain ⟨grown, child, middle, table, below, after, defined, descended,
        rest⟩ := CctxRegistry.mergeNodes_entry_ok walked
      have afterGrows := mergeNodes_grows lawful rest
      have insideGrows := mergeNodes_grows lawful descended
      have afterFits : library.Fits after.registry := afterGrows.fits fits
      have middleFits : library.Fits middle.registry :=
        insideGrows.fits afterFits
      have lookup := (CctxRegistry.findOrDefine_cases defined).1
      have grows := findOrDefine_grows lawful defined
      obtain ⟨alike, sameProcess⟩ := CctxRegistry.findOrDefine_ok defined
      have kind : child.1.context.type ≠ .process := by
        rw [EnteredContext.type_eq_of_equivalent alike]
        exact noProcess.head
      have aboveOf : ∀ other, some upper = some other →
          library.Names names s.registry outer other := by
        rintro _ ⟨rfl⟩
        exact above
      obtain ⟨middleSound, here, inside⟩ := namesAll_child lawful sound all
        aboveOf (fun _ => Option.some_ne_none upper)
        (fun needs => met (.here needs)) defined middleFits
      have childMet : NeedsProcess children →
          child.1.enteredProcess middle.p = processOf (outer ++ [cctx]) := by
        intro needs
        rw [processOf_concat,
          EnteredContext.enteredProcess_of_ne noProcess.head,
          EnteredContext.enteredProcess_of_ne kind, sameProcess]
        exact met needs.below
      obtain ⟨afterSound, belowAll⟩ := inChildren
        (s := { middle with
          p := child.1.enteredProcess middle.p
          table := table })
        noProcess.below middleSound here inside childMet descended afterFits
      have siblingsMet : NeedsProcess siblings → after.p = processOf outer := by
        intro needs
        rw [CctxRegistry.mergeNodes_p noProcess.below descended,
          EnteredContext.enteredProcess_of_ne kind, sameProcess]
        exact met needs.after
      have updated := namesAll_update lookup
        (all.mono (grows.trans insideGrows) afterFits)
        (here.mono insideGrows afterFits) belowAll
      exact inSiblings noProcess.after afterSound
        (above.mono (grows.trans insideGrows) afterFits) updated siblingsMet
        rest fits

theorem mergeNodes_top (lawful : library.Lawful)
    {merged : Forest EnteredContext δ}
    {left : MergeState (CctxDefinitions ρ)} (shape : ProcessesOnTop locals)
    (sound : library.Sound s.registry)
    (all : library.NamesAll names s.registry [] global)
    (walked : (library.registry names).mergeNodes locals none global s =
      .ok (merged, left)) (fits : library.Fits left.registry) :
    library.Sound left.registry ∧
      library.NamesAll names left.registry [] merged := by
  induction locals generalizing global s merged left with
  | nil =>
      cases walked
      exact ⟨sound, all⟩
  | entry cctx ref children siblings _ inSiblings =>
      obtain ⟨grown, child, middle, table, below, after, defined, descended,
        rest⟩ := CctxRegistry.mergeNodes_entry_ok walked
      have afterGrows := mergeNodes_grows lawful rest
      have insideGrows := mergeNodes_grows lawful descended
      have afterFits : library.Fits after.registry := afterGrows.fits fits
      have middleFits : library.Fits middle.registry :=
        insideGrows.fits afterFits
      have lookup := (CctxRegistry.findOrDefine_cases defined).1
      have grows := findOrDefine_grows lawful defined
      obtain ⟨alike, _⟩ := CctxRegistry.findOrDefine_ok defined
      -- A process needs no parent, and nothing else is on top where one does.
      have outermost : ¬ cctx.NeedsParent := by
        intro needs
        have kind := shape.process Forest.mem_paths_here rfl needs
        simp [EnteredContext.NeedsParent, kind] at needs
      have root : ∀ upper, (none : Option δ) = some upper →
          library.Names names s.registry [] upper := by
        intro upper absent
        cases absent
      obtain ⟨middleSound, here, inside⟩ := namesAll_child lawful sound all root
        (fun needs => absurd needs outermost)
        (fun needs => absurd needs outermost) defined middleFits
      have childMet : NeedsProcess children →
          child.1.enteredProcess middle.p = processOf ([] ++ [cctx]) := by
        rintro ⟨path, member, needy, last, needs⟩
        have lastBelow : (cctx :: path).getLast? = some needy := by
          rw [List.getLast?_cons, last]
          rfl
        have kind := shape.process (Forest.mem_paths_below member) lastBelow
          needs
        rw [processOf_concat, EnteredContext.enteredProcess_congr alike,
          EnteredContext.enteredProcess_of_process kind,
          EnteredContext.enteredProcess_of_process kind]
      obtain ⟨afterSound, belowAll⟩ := mergeNodes_below lawful
        (s := { middle with
          p := child.1.enteredProcess middle.p
          table := table })
        shape.below middleSound here inside childMet descended afterFits
      have updated := namesAll_update lookup
        (all.mono (grows.trans insideGrows) afterFits)
        (here.mono insideGrows afterFits) belowAll
      exact inSiblings shape.after afterSound updated rest fits

theorem mergeCallingContexts_ok {t : LocalCctxTree} {table : MappingTable}
    {merged : Forest EnteredContext δ}
    (finished : (library.registry names).mergeCallingContexts t global d =
      .ok (table, merged, next)) :
    ∃ mappings left,
      (library.registry names).mergeNodes t.tree.children none global
        ⟨d, ⟨-1⟩, mappings⟩ = .ok (merged, left) ∧ left.registry = next := by
  unfold CctxRegistry.mergeCallingContexts at finished
  simp only at finished
  split at finished
  · cases finished
  · next merged' left walked =>
    split at finished
    · cases finished
    · cases finished
      exact ⟨_, left, walked, rfl⟩

theorem mergeAll_cons_ok {t : LocalCctxTree} {trees : List LocalCctxTree}
    {tables : List MappingTable} {merged : Forest EnteredContext δ}
    (finished : (library.registry names).mergeAll (t :: trees) global d =
      .ok (tables, merged, next)) :
    ∃ mappings between left rest,
      (library.registry names).mergeNodes t.tree.children none global
        ⟨d, ⟨-1⟩, mappings⟩ = .ok (between, left) ∧
      (library.registry names).mergeAll trees between left.registry =
        .ok (rest, merged, next) := by
  rw [CctxRegistry.mergeAll] at finished
  split at finished
  · cases finished
  · next table between state here =>
    split at finished
    · cases finished
    · next rest merged' final after =>
      cases finished
      obtain ⟨mappings, left, walked, rfl⟩ := mergeCallingContexts_ok here
      exact ⟨mappings, between, left, rest, walked, after⟩

theorem mergeAll_grows (lawful : library.Lawful) {trees : List LocalCctxTree}
    {tables : List MappingTable} {merged : Forest EnteredContext δ}
    (finished : (library.registry names).mergeAll trees global d =
      .ok (tables, merged, next)) : library.Grows d next := by
  induction trees generalizing d global tables with
  | nil =>
      cases finished
      exact .refl
  | cons t trees induction =>
      obtain ⟨mappings, between, left, rest, walked, after⟩ :=
        mergeAll_cons_ok finished
      have here := mergeNodes_grows lawful walked
      exact here.trans (induction after)

theorem mergeAll_names (lawful : library.Lawful) {trees : List LocalCctxTree}
    {tables : List MappingTable} {merged : Forest EnteredContext δ}
    (shape : ∀ t ∈ trees, ProcessesOnTop t.tree.children)
    (sound : library.Sound d)
    (all : library.NamesAll names d [] global)
    (finished : (library.registry names).mergeAll trees global d =
      .ok (tables, merged, next)) (fits : library.Fits next) :
    library.NamesAll names next [] merged := by
  induction trees generalizing d global tables with
  | nil =>
      cases finished
      exact all
  | cons t trees induction =>
      obtain ⟨mappings, between, left, rest, walked, after⟩ :=
        mergeAll_cons_ok finished
      have leftFits : library.Fits left.registry :=
        (mergeAll_grows lawful after).fits fits
      obtain ⟨leftSound, leftAll⟩ := mergeNodes_top lawful
        (shape t List.mem_cons_self) sound all walked leftFits
      exact induction
        (fun other member => shape other (List.mem_cons_of_mem _ member))
        leftSound leftAll after

end CctxLibrary

end Lo2s
