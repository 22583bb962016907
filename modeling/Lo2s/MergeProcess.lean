import Lo2s.MergeExact

/-!
# The process of merged definitions

`merge_nodes` keeps the process whose resolvers are asked in `MergeContext`,
which all levels of the recursion share and which no level restores.  To speak
about it, the walk is repeated with a log of the definitions it asks for; the
log leaves the walk as it is.  Below a process the shared value stays the one
of that process, and the next process sets it anew.
-/

namespace Lo2s

open Foundation KeyOrder

namespace EnteredContext

/-- The process that `merge_nodes` holds after it passed a context. -/
def enteredProcess (cctx : EnteredContext) (p : Process) : Process :=
  if cctx.context.type = .process then cctx.context.p else p

theorem p_eq_of_equivalent {lhs rhs : EnteredContext}
    (equivalent : Equivalent lhs rhs) (kind : rhs.context.type = .process) :
    lhs.context.p = rhs.context.p := by
  have leftKind := (type_eq_of_equivalent equivalent).trans kind
  rw [equivalent_iff_rank] at equivalent
  have member : lhs.context.memberRank = rhs.context.memberRank :=
    congrArg Prod.snd equivalent
  simp only [CallingContext.memberRank, leftKind, kind] at member
  have pids : lhs.context.p.pid.toInt = rhs.context.p.pid.toInt :=
    congrArg Prod.fst member
  cases left : lhs.context.p
  cases right : rhs.context.p
  rw [left, right, Int64.toInt_inj] at pids
  exact congrArg Process.mk pids

theorem enteredProcess_congr {lhs rhs : EnteredContext}
    (equivalent : Equivalent lhs rhs) (p : Process) :
    lhs.enteredProcess p = rhs.enteredProcess p := by
  unfold enteredProcess
  rw [type_eq_of_equivalent equivalent]
  by_cases kind : rhs.context.type = .process
  · rw [if_pos kind, if_pos kind, p_eq_of_equivalent equivalent kind]
  · rw [if_neg kind, if_neg kind]

theorem enteredProcess_of_process {cctx : EnteredContext}
    (kind : cctx.context.type = .process) (p : Process) :
    cctx.enteredProcess p = cctx.context.p := if_pos kind

theorem enteredProcess_of_ne {cctx : EnteredContext}
    (kind : cctx.context.type ≠ .process) (p : Process) :
    cctx.enteredProcess p = p := if_neg kind

end EnteredContext

/-- A definition that `merge_nodes` asks for: the local contexts that lead to
it, its own included, and the process held in `MergeContext`. -/
structure Creation where
  path : List EnteredContext
  p : Process

/-- No entry of these maps is a process. -/
def NoProcess (locals : Forest EnteredContext Nat) : Prop :=
  ∀ path ∈ locals.paths, ∀ cctx ∈ path, cctx.context.type ≠ .process

/-- The children of a root under which processes occur only as children of the
root, and whatever is resolved lies below one of them. -/
structure ProcessesOnTop (locals : Forest EnteredContext Nat) : Prop where
  top : ∀ path ∈ locals.paths, ∀ cctx ∈ path.tail,
    cctx.context.type ≠ .process
  resolved : ∀ path ∈ locals.paths, ∀ cctx, path.getLast? = some cctx →
    cctx.NeedsParent → ∃ process ∈ path, process.context.type = .process

section

variable {cctx : EnteredContext} {ref : Nat}
  {children siblings : Forest EnteredContext Nat}

theorem NoProcess.head (none : NoProcess (.entry cctx ref children siblings)) :
    cctx.context.type ≠ .process :=
  none [cctx] Forest.mem_paths_here cctx List.mem_cons_self

theorem NoProcess.below
    (none : NoProcess (.entry cctx ref children siblings)) :
    NoProcess children := fun path member other within =>
  none (cctx :: path) (Forest.mem_paths_below member) other
    (List.mem_cons_of_mem _ within)

theorem NoProcess.after
    (none : NoProcess (.entry cctx ref children siblings)) :
    NoProcess siblings := fun path member =>
  none path (Forest.mem_paths_after member)

theorem ProcessesOnTop.below
    (shape : ProcessesOnTop (.entry cctx ref children siblings)) :
    NoProcess children := fun path member =>
  shape.top (cctx :: path) (Forest.mem_paths_below member)

theorem ProcessesOnTop.after
    (shape : ProcessesOnTop (.entry cctx ref children siblings)) :
    ProcessesOnTop siblings :=
  { top := fun path member => shape.top path (Forest.mem_paths_after member)
    resolved := fun path member =>
      shape.resolved path (Forest.mem_paths_after member) }

/-- What needs a resolver has the process of the first context on its path. -/
theorem ProcessesOnTop.process
    {locals : Forest EnteredContext Nat} (shape : ProcessesOnTop locals)
    {inner : List EnteredContext} (known : cctx :: inner ∈ locals.paths)
    {needy : EnteredContext} (last : (cctx :: inner).getLast? = some needy)
    (needs : needy.NeedsParent) : cctx.context.type = .process := by
  obtain ⟨process, member, kind⟩ := shape.resolved _ known needy last needs
  rcases List.mem_cons.mp member with rfl | later
  · exact kind
  · exact absurd kind (shape.top _ known process later)

end

namespace CctxRegistry

variable {σ : Type u} {δ : Type v} (registry : CctxRegistry σ δ)

/-- `merge_nodes` with the definitions it asks for.  `path` leads to the node
whose children are merged. -/
def mergeNodesLogged : Forest EnteredContext Nat → List EnteredContext →
    Option δ → Forest EnteredContext δ → MergeState σ →
    List Creation × Except Failure (Forest EnteredContext δ × MergeState σ)
  | .nil, _, _, global, s => ([], .ok (global, s))
  | .entry cctx ref children siblings, path, parent, global, s =>
      let created : List Creation :=
        if (global.find? cctx).isSome then [] else [⟨path ++ [cctx], s.p⟩]
      match registry.findOrDefine cctx parent global s with
      | .error failure => (created, .error failure)
      | .ok (global, globalChild, s) =>
      match s.table.put ref (registry.ref globalChild.2.value) with
      | .error failure => (created, .error failure)
      | .ok table =>
      let p := if globalChild.1.context.type = .process then
          globalChild.1.context.p else s.p
      match mergeNodesLogged children (path ++ [cctx])
          (some globalChild.2.value) globalChild.2.children
          { s with p := p, table := table } with
      | (below, .error failure) => (created ++ below, .error failure)
      | (below, .ok (merged, s)) =>
          let rest := mergeNodesLogged siblings path parent
            (global.update cctx fun child => { child with children := merged }) s
          (created ++ below ++ rest.1, rest.2)

theorem mergeNodesLogged_snd (locals : Forest EnteredContext Nat)
    (path : List EnteredContext) (parent : Option δ)
    (global : Forest EnteredContext δ) (s : MergeState σ) :
    (registry.mergeNodesLogged locals path parent global s).2 =
      registry.mergeNodes locals parent global s := by
  induction locals generalizing path parent global s with
  | nil => rfl
  | entry cctx ref children siblings inChildren inSiblings =>
      rw [mergeNodesLogged, mergeNodes]
      cases defined : registry.findOrDefine cctx parent global s with
      | error failure => rfl
      | ok child =>
          obtain ⟨global, globalChild, s⟩ := child
          cases put : s.table.put ref (registry.ref globalChild.2.value) with
          | error failure => simp only [put]
          | ok table =>
              simp only [put]
              rw [← inChildren (path ++ [cctx])]
              split
              · simp only [*]
              · simp only [*]

variable {registry}

theorem findOrDefine_ok {cctx : EnteredContext} {parent : Option δ}
    {global grown : Forest EnteredContext δ}
    {child : EnteredContext × Node EnteredContext δ} {s next : MergeState σ}
    (defined : registry.findOrDefine cctx parent global s =
      .ok (grown, child, next)) :
    Equivalent child.1 cctx ∧ next.p = s.p := by
  unfold findOrDefine at defined
  split at defined
  · cases defined
    exact ⟨Forest.find?_key ‹_›, rfl⟩
  · rename_i absent
    split at defined
    · cases defined
    · cases defined
      rw [Forest.emplace, absent]
      exact ⟨.refl _, rfl⟩

/-- The ways a definition comes about: for the first entry, below it, or for
a sibling.  The children are entered with the process of their entry. -/
theorem creation_cases {cctx : EnteredContext} {ref : Nat}
    {children siblings : Forest EnteredContext Nat}
    {path : List EnteredContext} {parent : Option δ}
    {global : Forest EnteredContext δ} {s : MergeState σ} {creation : Creation}
    (member : creation ∈ (registry.mergeNodesLogged
      (.entry cctx ref children siblings) path parent global s).1) :
    creation = ⟨path ++ [cctx], s.p⟩ ∨
    ∃ childCctx childGlobal entered, entered.p = cctx.enteredProcess s.p ∧
      (creation ∈ (registry.mergeNodesLogged children (path ++ [cctx])
          (some childCctx) childGlobal entered).1 ∨
        ∃ merged left global, registry.mergeNodes children (some childCctx)
            childGlobal entered = .ok (merged, left) ∧
          creation ∈ (registry.mergeNodesLogged siblings path parent global
            left).1) := by
  rw [mergeNodesLogged] at member
  have first : creation ∈ (if (global.find? cctx).isSome then [] else
      [⟨path ++ [cctx], s.p⟩] : List Creation) →
      creation = ⟨path ++ [cctx], s.p⟩ := by
    intro member
    split at member
    · cases member
    · exact List.mem_singleton.mp member
  cases defined : registry.findOrDefine cctx parent global s with
  | error failure =>
      simp only [defined] at member
      exact .inl (first member)
  | ok child =>
      obtain ⟨grown, globalChild, next⟩ := child
      obtain ⟨equivalent, sameProcess⟩ := findOrDefine_ok defined
      have process : globalChild.1.enteredProcess next.p =
          cctx.enteredProcess s.p := by
        rw [EnteredContext.enteredProcess_congr equivalent, sameProcess]
      simp only [defined] at member
      cases put : next.table.put ref (registry.ref globalChild.2.value) with
      | error failure =>
          simp only [put] at member
          exact .inl (first member)
      | ok table =>
          simp only [put] at member
          split at member
          · rename_i below failure walked
            rcases List.mem_append.mp member with here | inside
            · exact .inl (first here)
            · refine .inr ⟨globalChild.2.value, globalChild.2.children,
                { next with p := globalChild.1.enteredProcess next.p
                            table := table }, process, .inl ?_⟩
              simp only [EnteredContext.enteredProcess, walked]
              exact inside
          · rename_i below merged left walked
            rw [List.append_assoc] at member
            rcases List.mem_append.mp member with here | later
            · exact .inl (first here)
            · refine .inr ⟨globalChild.2.value, globalChild.2.children,
                { next with p := globalChild.1.enteredProcess next.p
                            table := table }, process, ?_⟩
              rcases List.mem_append.mp later with inside | after
              · simp only [EnteredContext.enteredProcess, walked]
                exact .inl inside
              · refine .inr ⟨merged, left, _, ?_, after⟩
                rw [← registry.mergeNodesLogged_snd _ (path ++ [cctx])]
                simp only [EnteredContext.enteredProcess, walked]

/-- Without processes among the entries, the walk leaves the process alone. -/
theorem mergeNodes_p {locals : Forest EnteredContext Nat}
    (none : NoProcess locals) {parent : Option δ}
    {global merged : Forest EnteredContext δ} {s left : MergeState σ}
    (walked : registry.mergeNodes locals parent global s =
      .ok (merged, left)) : left.p = s.p := by
  induction locals generalizing parent global merged s left with
  | nil =>
      cases walked
      rfl
  | entry cctx ref children siblings inChildren inSiblings =>
      rw [mergeNodes] at walked
      cases defined : registry.findOrDefine cctx parent global s with
      | error failure => simp [defined] at walked
      | ok child =>
          obtain ⟨grown, globalChild, next⟩ := child
          obtain ⟨equivalent, sameProcess⟩ := findOrDefine_ok defined
          simp only [defined] at walked
          have kind : globalChild.1.context.type ≠ .process := by
            rw [EnteredContext.type_eq_of_equivalent equivalent]
            exact none.head
          split at walked
          · cases walked
          · split at walked
            · cases walked
            · rename_i descended
              rw [inSiblings none.after walked,
                inChildren none.below descended]
              simp only [if_neg kind]
              exact sameProcess

theorem creation_path {locals : Forest EnteredContext Nat}
    {path : List EnteredContext} {parent : Option δ}
    {global : Forest EnteredContext δ} {s : MergeState σ} {creation : Creation}
    (member : creation ∈ (registry.mergeNodesLogged locals path parent global
      s).1) : ∃ inner ∈ locals.paths, creation.path = path ++ inner := by
  induction locals generalizing path parent global s with
  | nil => cases member
  | entry cctx ref children siblings inChildren inSiblings =>
      rcases creation_cases member with here |
        ⟨_, _, _, _, inside | ⟨_, _, _, _, after⟩⟩
      · exact ⟨[cctx], Forest.mem_paths_here, congrArg Creation.path here⟩
      · obtain ⟨inner, known, located⟩ := inChildren inside
        refine ⟨cctx :: inner, Forest.mem_paths_below known, ?_⟩
        rw [located, List.append_assoc, List.singleton_append]
      · obtain ⟨inner, known, located⟩ := inSiblings after
        exact ⟨inner, Forest.mem_paths_after known, located⟩

/-- Below a process, every definition is asked for with that process. -/
theorem creation_p {locals : Forest EnteredContext Nat}
    (none : NoProcess locals) {path : List EnteredContext}
    {parent : Option δ} {global : Forest EnteredContext δ} {s : MergeState σ}
    {creation : Creation}
    (member : creation ∈ (registry.mergeNodesLogged locals path parent global
      s).1) : creation.p = s.p := by
  induction locals generalizing path parent global s with
  | nil => cases member
  | entry cctx ref children siblings inChildren inSiblings =>
      rcases creation_cases member with here |
        ⟨_, _, entered, process, inside | ⟨_, left, _, walked, later⟩⟩
      · exact congrArg Creation.p here
      · rw [inChildren none.below inside, process]
        exact EnteredContext.enteredProcess_of_ne none.head _
      · rw [inSiblings none.after later, mergeNodes_p none.below walked,
          process]
        exact EnteredContext.enteredProcess_of_ne none.head _

/-- Addresses are resolved in the process they were sampled in: whatever the
global tree holds and whatever process the walk starts with, a definition that
needs a resolver is asked for with the process at the top of its path. -/
theorem mergeNodes_process {locals : Forest EnteredContext Nat}
    (shape : ProcessesOnTop locals) (parent : Option δ)
    (global : Forest EnteredContext δ) (s : MergeState σ) {creation : Creation}
    (member : creation ∈ (registry.mergeNodesLogged locals [] parent global
      s).1) {cctx : EnteredContext} (last : creation.path.getLast? = some cctx)
    (needs : cctx.NeedsParent) :
    creation.path ∈ locals.paths ∧
      ∃ process below, creation.path = process :: below ∧
        process.context.type = .process ∧ creation.p = process.context.p := by
  have known : creation.path ∈ locals.paths := by
    obtain ⟨inner, known, located⟩ := creation_path member
    rw [located]
    exact known
  refine ⟨known, ?_⟩
  clear known
  induction locals generalizing global s with
  | nil => cases member
  | entry top ref children siblings _ inSiblings =>
      rcases creation_cases member with rfl |
        ⟨_, _, entered, process, inside | ⟨_, _, _, _, later⟩⟩
      · -- An entry of the root is no process when it needs one.
        have same : top = cctx := Option.some.inj last
        have kind := shape.process Forest.mem_paths_here last needs
        rw [same] at kind
        rcases needs with other | other | other
        all_goals
          rw [kind] at other
          cases other
      · obtain ⟨inner, known, located⟩ := creation_path inside
        rw [List.nil_append, List.singleton_append] at located
        rw [located] at last
        have kind := shape.process (Forest.mem_paths_below known) last needs
        refine ⟨top, inner, located, kind, ?_⟩
        rw [creation_p shape.below inside, process]
        exact EnteredContext.enteredProcess_of_process kind _
      · exact inSiblings shape.after _ _ later

/-- A sample of process 7, which is not the process the walk starts with. -/
theorem mergeNodes_process_sample :
    ∃ creation ∈ (counting.mergeNodesLogged
        (.entry (.process ⟨7⟩ ⟨0, 0, 0⟩) 0
          (.entry (.sample 64 ⟨0, 0, 0⟩) 1 .nil .nil) .nil) [] none .nil
        ⟨0, ⟨-1⟩, ⟨[0, 0], []⟩⟩).1,
      ∃ process below, creation.path = process :: below ∧
        process.context.type = .process ∧ creation.p = process.context.p := by
  have member : (⟨[.process ⟨7⟩ ⟨0, 0, 0⟩, .sample 64 ⟨0, 0, 0⟩], ⟨7⟩⟩ :
      Creation) ∈ (counting.mergeNodesLogged
        (.entry (.process ⟨7⟩ ⟨0, 0, 0⟩) 0
          (.entry (.sample 64 ⟨0, 0, 0⟩) 1 .nil .nil) .nil) [] none .nil
        ⟨0, ⟨-1⟩, ⟨[0, 0], []⟩⟩).1 := .tail _ (.head _)
  refine ⟨_, member,
    (mergeNodes_process ⟨?_, ?_⟩ none .nil _ member rfl (.inl rfl)).2⟩
  · intro path known cctx within
    rcases List.mem_cons.mp known with rfl | later
    · cases within
    · rw [List.mem_singleton.mp later] at within
      rw [List.mem_singleton.mp within]
      decide
  · intro path known cctx last needs
    refine ⟨.process ⟨7⟩ ⟨0, 0, 0⟩, ?_, rfl⟩
    rcases List.mem_cons.mp known with rfl | later
    · exact List.mem_cons_self
    · rw [List.mem_singleton.mp later]
      exact List.mem_cons_self

end CctxRegistry

end Lo2s
