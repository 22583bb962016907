import Lo2s.CctxEnter
import Lo2s.MergeCallingContexts

/-!
# Merging is exact

Merging a local map into a global one is described by what a lookup by path
finds afterwards: the old definitions are kept, the paths are united, and the
slot of each local node holds the reference of the definition at its path.  The
description composes along the siblings of a map, which is how the walk visits
them.
-/

namespace Lo2s

open Foundation KeyOrder

variable {σ : Type u} {δ : Type v}

/-- A context whose definition is made below the definition of its parent. -/
def EnteredContext.NeedsParent (cctx : EnteredContext) : Prop :=
  cctx.context.type = .sampleAddr ∨ cctx.context.type = .gpuKernel ∨
    cctx.context.type = .openmp

theorem MappingTable.put_ok {before after : MappingTable} {slot : Nat}
    {ref : UInt32} (written : before.put slot ref = .ok after) :
    slot < before.slots.length ∧ after.slots = before.slots.set slot ref ∧
      after.written = before.written ++ [slot] := by
  unfold put at written
  split at written
  · cases written
    exact ⟨‹_›, rfl, rfl⟩
  · cases written

namespace CctxRegistry

variable (registry : CctxRegistry σ δ)

/-- The effect of merging `locals` into `global`. -/
structure Merged (locals : Forest EnteredContext Nat)
    (global : Forest EnteredContext δ) (before : MappingTable)
    (merged : Forest EnteredContext δ) (after : MappingTable) : Prop where
  kept : ∀ path definition, global.valueAt path = some definition →
    merged.valueAt path = some definition
  paths : ∀ path, (merged.valueAt path).isSome ↔
    (global.valueAt path).isSome ∨ (locals.valueAt path).isSome
  written : after.written = before.written ++ locals.values
  length : after.slots.length = before.slots.length
  mapped : ∀ path ref, locals.valueAt path = some ref →
    ∃ definition, merged.valueAt path = some definition ∧
      after.slots[ref]? = some (registry.ref definition)
  others : ∀ slot, slot ∉ locals.values →
    after.slots[slot]? = before.slots[slot]?

/-- Where the root's missing definition is not needed. -/
def Definable (locals : Forest EnteredContext Nat) (parent : Option δ)
    (global : Forest EnteredContext δ) : Prop :=
  parent = none → ∀ cctx, cctx.NeedsParent → (locals.find? cctx).isSome →
    (global.find? cctx).isSome

section

variable {registry}

theorem Merged.refl (global : Forest EnteredContext δ) (table : MappingTable) :
    Merged registry .nil global table global table where
  kept := fun _ _ known => known
  paths := by simp
  written := by simp [Forest.values]
  length := rfl
  mapped := by simp
  others := fun _ _ => rfl

theorem Merged.siblings {key : EnteredContext} {ref : Nat}
    {children siblings : Forest EnteredContext Nat}
    {global middle last : Forest EnteredContext δ}
    {before between after : MappingTable}
    (distinct : siblings.find? key = none)
    (unique : (Forest.entry key ref children siblings).values.Nodup)
    (first : Merged registry (.entry key ref children .nil) global before
      middle between)
    (second : Merged registry siblings middle between last after) :
    Merged registry (.entry key ref children siblings) global before
      last after := by
  have split : (Forest.entry key ref children siblings).values =
      (Forest.entry key ref children .nil).values ++ siblings.values := by
    simp [Forest.values]
  -- A path goes through the first entry or through its siblings.
  have lookup : ∀ path result,
      (Forest.entry key ref children siblings).valueAt path = some result ↔
        (Forest.entry key ref children .nil).valueAt path = some result ∨
          siblings.valueAt path = some result := by
    intro path result
    cases path with
    | nil => simp [Forest.valueAt]
    | cons step path =>
        rw [Forest.valueAt_entry, Forest.valueAt_entry]
        by_cases same : Equivalent key step
        · have absent : siblings.find? step = none := by
            rw [← Forest.find?_congr same, distinct]
          simp [same, Forest.valueAt, absent]
        · simp [same]
  refine
    { kept := fun path definition known =>
        second.kept path definition (first.kept path definition known)
      paths := ?_
      written := ?_
      length := second.length.trans first.length
      mapped := ?_
      others := ?_ }
  · intro path
    rw [second.paths, first.paths, or_assoc]
    simp only [Option.isSome_iff_exists, lookup, exists_or]
  · rw [second.written, first.written, split, List.append_assoc]
  · intro path slot found
    rcases (lookup path slot).mp found with inFirst | inSecond
    · obtain ⟨definition, stored, mapped⟩ := first.mapped path slot inFirst
      refine ⟨definition, second.kept path definition stored, ?_⟩
      have member : slot ∈ (Forest.entry key ref children .nil).values := by
        cases path with
        | nil => simp [Forest.valueAt] at inFirst
        | cons step path =>
            rw [← Forest.valueAt_children step path ⟨0, _⟩] at inFirst
            exact Node.valueAt_mem_values inFirst (List.cons_ne_nil _ _)
      rw [split] at unique
      rw [second.others slot (List.disjoint_of_nodup_append unique member)]
      exact mapped
    · exact second.mapped path slot inSecond
  · intro slot fresh
    rw [split, List.mem_append, not_or] at fresh
    rw [second.others slot fresh.2, first.others slot fresh.1]

section

variable {key step : EnteredContext}
  {global emplaced grown : Forest EnteredContext δ}
  {globalChild : EnteredContext × Node EnteredContext δ}

/-- A path from the new global map goes through the grown child or through an
old one. -/
theorem valueAt_grown
    (child : ∀ query, emplaced.find? query =
      if Equivalent key query then some globalChild else global.find? query)
    (path : List EnteredContext) :
    (emplaced.update key fun child =>
      { child with children := grown }).valueAt (step :: path) =
      if Equivalent key step then
        (⟨globalChild.2.value, grown⟩ : Node EnteredContext δ).valueAt path
      else global.valueAt (step :: path) := by
  simp only [Forest.valueAt, Forest.find?_update, child]
  by_cases same : Equivalent key step
  · simp [same]
  · simp [same]

/-- The child that is there or has just been emplaced, seen from the old map. -/
theorem valueAt_child
    (old : global.find? key = some globalChild ∨
      global.find? key = none ∧ globalChild.2.children = .nil)
    (path : List EnteredContext) (same : Equivalent key step) :
    global.valueAt (step :: path) =
      if global.find? key = none then none
      else globalChild.2.valueAt path := by
  rw [Forest.valueAt, ← Forest.find?_congr same]
  rcases old with known | ⟨absent, _⟩
  · simp [known]
  · simp [absent]

end

/-- One entry: its slot is written, and the children are merged below the
global child. -/
theorem Merged.entry {key : EnteredContext} {ref : Nat}
    {children : Forest EnteredContext Nat}
    {global emplaced grown : Forest EnteredContext δ}
    {globalChild : EnteredContext × Node EnteredContext δ}
    {before between after : MappingTable}
    (child : ∀ query, emplaced.find? query =
      if Equivalent key query then some globalChild else global.find? query)
    (old : global.find? key = some globalChild ∨
      global.find? key = none ∧ globalChild.2.children = .nil)
    (written : before.put ref (registry.ref globalChild.2.value) = .ok between)
    (fresh : ref ∉ children.values)
    (below : Merged registry children globalChild.2.children between
      grown after) :
    Merged registry (.entry key ref children .nil) global before
      (emplaced.update key fun child => { child with children := grown })
      after := by
  obtain ⟨inside, slots, log⟩ := MappingTable.put_ok written
  refine
    { kept := ?_, paths := ?_, written := ?_, length := ?_, mapped := ?_,
      others := ?_ }
  · intro path definition known
    cases path with
    | nil => cases known
    | cons step path =>
        rw [valueAt_grown child]
        by_cases same : Equivalent key step
        · rw [valueAt_child old path same] at known
          rw [if_pos same]
          split at known
          · cases known
          · cases path with
            | nil => exact known
            | cons next path =>
                rw [Forest.valueAt_children] at known ⊢
                exact below.kept _ _ known
        · rw [if_neg same]
          exact known
  · intro path
    cases path with
    | nil => simp [Forest.valueAt]
    | cons step path =>
        rw [valueAt_grown child, Forest.valueAt_entry]
        by_cases same : Equivalent key step
        · rw [if_pos same, if_pos same, valueAt_child old path same]
          cases path with
          | nil => simp
          | cons next path =>
              rw [Forest.valueAt_children, Forest.valueAt_children,
                Forest.valueAt_children, below.paths]
              rcases old with known | ⟨absent, empty⟩
              · simp [known]
              · simp [absent, empty]
        · simp [same]
  · rw [below.written, log]
    simp [Forest.values]
  · rw [below.length, slots, List.length_set]
  · intro path slot found
    cases path with
    | nil => cases found
    | cons step path =>
        rw [Forest.valueAt_entry] at found
        by_cases same : Equivalent key step
        · rw [if_pos same] at found
          rw [valueAt_grown child, if_pos same]
          cases path with
          | nil =>
              rw [Node.valueAt_nil, Option.some.injEq] at found
              subst found
              refine ⟨globalChild.2.value, rfl, ?_⟩
              rw [below.others _ fresh, slots, List.getElem?_set_self inside]
          | cons next path =>
              rw [Forest.valueAt_children] at found ⊢
              exact below.mapped _ _ found
        · simp [same] at found
  · intro slot absent
    simp only [Forest.values, List.append_nil, List.mem_cons, not_or] at absent
    rw [below.others slot absent.2, slots,
      List.getElem?_set_ne (Ne.symm absent.1)]

end

/-- A definition is made unless the missing one of the root is needed. -/
theorem define_eq_ok {cctx : EnteredContext} {parent : Option δ}
    (definable : parent = none → ¬ cctx.NeedsParent) (p : Process) (state : σ) :
    ∃ result, registry.define cctx parent p state = .ok result := by
  have notRoot := cctx.notRoot
  unfold define
  unfold EnteredContext.NeedsParent at definable
  cases parent with
  | none => cases kind : cctx.context.type <;> simp_all
  | some parent => cases kind : cctx.context.type <;> simp_all

theorem findOrDefine_spec (cctx : EnteredContext) (parent : Option δ)
    (global : Forest EnteredContext δ)
    (definable : parent = none → cctx.NeedsParent →
      (global.find? cctx).isSome) (s : MergeState σ) :
    ∃ emplaced globalChild next,
      registry.findOrDefine cctx parent global s =
        .ok (emplaced, globalChild, next) ∧
      next.table = s.table ∧
      (∀ query, emplaced.find? query =
        if Equivalent cctx query then some globalChild
        else global.find? query) ∧
      (global.find? cctx = some globalChild ∨
        global.find? cctx = none ∧ globalChild.2.children = .nil) := by
  cases known : global.find? cctx with
  | some found =>
      refine ⟨global, found, s, by simp [findOrDefine, known], rfl, ?_, .inl rfl⟩
      intro query
      by_cases same : Equivalent cctx query
      · rw [if_pos same, ← Forest.find?_congr same, known]
      · rw [if_neg same]
  | none =>
      obtain ⟨⟨newCctx, state⟩, defined⟩ := define_eq_ok registry
        (fun isRoot needs => by simpa [known] using definable isRoot needs)
        s.p s.registry
      refine ⟨global.insert cctx newCctx, (cctx, ⟨newCctx, .nil⟩),
        { s with registry := state }, ?_, rfl, Forest.find?_insert known newCctx,
        .inr ⟨rfl, rfl⟩⟩
      simp [findOrDefine, known, defined, Forest.emplace]

theorem mergeNodes_spec {locals : Forest EnteredContext Nat}
    (distinct : locals.Distinct) (unique : locals.values.Nodup)
    (parent : Option δ) (global : Forest EnteredContext δ)
    (definable : Definable locals parent global) {s : MergeState σ}
    (inside : ∀ ref ∈ locals.values, ref < s.table.slots.length) :
    ∃ merged next, registry.mergeNodes locals parent global s =
        .ok (merged, next) ∧
      Merged registry locals global s.table merged next.table := by
  induction locals generalizing parent global s with
  | nil => exact ⟨global, s, rfl, .refl global s.table⟩
  | entry cctx ref children siblings inductionChildren inductionSiblings =>
      obtain ⟨absent, childrenDistinct, siblingsDistinct⟩ := distinct
      obtain ⟨fresh, restUnique⟩ := List.nodup_cons.mp unique
      obtain ⟨emplaced, globalChild, defined, found, sameTable, child, old⟩ :=
        findOrDefine_spec registry cctx parent global
          (fun isRoot needs => definable isRoot cctx needs
            (by simp [Forest.find?])) s
      obtain ⟨table, put, tableLength⟩ : ∃ table,
          s.table.put ref (registry.ref globalChild.2.value) = .ok table ∧
            table.slots.length = s.table.slots.length := by
        have slot := inside ref List.mem_cons_self
        exact ⟨_, by rw [MappingTable.put, if_pos slot], List.length_set⟩
      -- The process of the children is the global child's own if it is one.
      let p := if globalChild.1.context.type = .process then
        globalChild.1.context.p else defined.p
      obtain ⟨grown, afterChildren, walkedChildren, below⟩ :=
        inductionChildren childrenDistinct restUnique.of_append_left
          (some globalChild.2.value) globalChild.2.children
          (s := { defined with p := p, table := table })
          (fun isRoot => by cases isRoot)
          (fun slot member => by
            rw [tableLength]
            exact inside slot (List.mem_cons_of_mem _
              (List.mem_append_left _ member)))
      have first := Merged.entry child old put
        (fun member => fresh (List.mem_append_left _ member)) below
      obtain ⟨merged, last, walkedSiblings, second⟩ :=
        inductionSiblings siblingsDistinct restUnique.of_append_right parent
          (emplaced.update cctx fun child => { child with children := grown })
          (s := afterChildren)
          (by
            intro isRoot query needs present
            have notFirst : ¬ Equivalent cctx query := by
              intro same
              rw [← Forest.find?_congr same, absent] at present
              cases present
            rw [Forest.find?_update, if_neg notFirst, child, if_neg notFirst]
            exact definable isRoot query needs
              (by simpa [Forest.find?, notFirst] using present))
          (fun slot member => by
            rw [first.length]
            exact inside slot (List.mem_cons_of_mem _
              (List.mem_append_right _ member)))
      refine ⟨merged, last, ?_, first.siblings absent unique second⟩
      rw [mergeNodes, found]
      simp only [sameTable, put]
      simp only [p] at walkedChildren
      simp only [walkedChildren]
      exact walkedSiblings

end CctxRegistry

/-- A tree some calls were made on, and that was then finalized. -/
def LocalCctxTree.Finalized (t : LocalCctxTree) : Prop :=
  ∃ interruptGenerator running,
    Reachable LocalCctxTree.call (.init interruptGenerator) running ∧
      t = running.finalize

namespace CctxRegistry

/-- The table of one local tree is written in every slot once, and maps each
node to the global definition at its path. -/
structure ExactTable (registry : CctxRegistry σ δ)
    (global : Forest EnteredContext δ) (t : LocalCctxTree)
    (table : MappingTable) : Prop where
  length : table.slots.length = t.numCctx
  once : table.written.Perm (List.range t.numCctx)
  mapped : ∀ path ref, t.tree.children.valueAt path = some ref →
    ∃ definition, global.valueAt path = some definition ∧
      table.slots[ref]? = some (registry.ref definition)

theorem ExactTable.mono {registry : CctxRegistry σ δ}
    {global grown : Forest EnteredContext δ}
    {t : LocalCctxTree} {table : MappingTable}
    (exact' : ExactTable registry global t table)
    (kept : ∀ path definition, global.valueAt path = some definition →
      grown.valueAt path = some definition) :
    ExactTable registry grown t table where
  length := exact'.length
  once := exact'.once
  mapped := fun path ref found =>
    let ⟨definition, stored, mapped⟩ := exact'.mapped path ref found
    ⟨definition, kept path definition stored, mapped⟩

variable (registry : CctxRegistry σ δ)

theorem mergeCallingContexts_spec {t : LocalCctxTree} (finalized : t.Finalized)
    {global : Forest EnteredContext δ}
    (definable : Definable t.tree.children (none : Option δ) global)
    (state : σ) :
    ∃ table merged next,
      registry.mergeCallingContexts t global state =
        .ok (table, merged, next) ∧
      ExactTable registry merged t table ∧
      (∀ path definition, global.valueAt path = some definition →
        merged.valueAt path = some definition) ∧
      ∀ path, (merged.valueAt path).isSome ↔
        (global.valueAt path).isSome ∨
          (t.tree.children.valueAt path).isSome := by
  obtain ⟨_, running, reachable, rfl⟩ := finalized
  have tree := (LocalCctxTree.Invariant.reachable reachable).tree
  have refs : running.tree.children.values.Perm
      (List.range running.finalize.numCctx) := tree.refs
  obtain ⟨merged, next, walked, effect⟩ :=
    mergeNodes_spec registry tree.distinct
      (refs.nodup_iff.mpr List.nodup_range) none global definable
      (s := ⟨state, ⟨-1⟩,
        ⟨List.replicate running.finalize.numCctx undefinedRef, []⟩⟩)
      (fun ref member => by simpa using refs.subset member)
  have length := effect.length
  simp only [List.length_replicate] at length
  -- Every slot belongs to a node, so none keeps the fill value.
  have defined : undefinedRef ∉ next.table.slots := by
    intro member
    obtain ⟨slot, inside, holds⟩ := List.mem_iff_getElem.mp member
    have node : slot ∈ running.tree.children.values :=
      refs.symm.subset (List.mem_range.mpr (length ▸ inside))
    obtain ⟨path, found⟩ := Forest.exists_valueAt tree.distinct node
    obtain ⟨definition, _, mapped⟩ := effect.mapped path slot found
    rw [List.getElem?_eq_getElem inside, Option.some.injEq, holds] at mapped
    exact registry.ref_defined definition mapped.symm
  refine ⟨next.table, merged, next.registry, ?_, ⟨length, ?_, effect.mapped⟩,
    effect.kept, effect.paths⟩
  · rw [mergeCallingContexts]
    simp only [LocalCctxTree.finalize] at walked ⊢
    simp only [walked, if_neg defined]
  · rw [effect.written]
    exact refs

theorem find?_isSome_of_kept {global grown : Forest EnteredContext δ}
    (kept : ∀ path definition, global.valueAt path = some definition →
      grown.valueAt path = some definition) {cctx : EnteredContext}
    (present : (global.find? cctx).isSome) : (grown.find? cctx).isSome := by
  obtain ⟨found, known⟩ := Option.isSome_iff_exists.mp present
  have stays := kept [cctx] found.2.value (by simp [Forest.valueAt, known])
  cases grownKnown : grown.find? cctx with
  | none => simp [Forest.valueAt, grownKnown] at stays
  | some _ => rfl

theorem mergeAll_spec {trees : List LocalCctxTree}
    (finalized : ∀ t ∈ trees, t.Finalized) (global : Forest EnteredContext δ)
    (definable : ∀ t ∈ trees, ∀ cctx, EnteredContext.NeedsParent cctx →
      (t.tree.children.find? cctx).isSome → (global.find? cctx).isSome)
    (state : σ) :
    ∃ tables merged next,
      registry.mergeAll trees global state = .ok (tables, merged, next) ∧
      List.Forall₂ (ExactTable registry merged) trees tables ∧
      (∀ path definition, global.valueAt path = some definition →
        merged.valueAt path = some definition) ∧
      ∀ path, (merged.valueAt path).isSome ↔
        (global.valueAt path).isSome ∨
          ∃ t ∈ trees, (t.tree.children.valueAt path).isSome := by
  induction trees generalizing global state with
  | nil => exact ⟨[], global, state, rfl, .nil, fun _ _ known => known, by simp⟩
  | cons t trees induction =>
      obtain ⟨table, middle, between, walked, exactTable, keptFirst, firstPaths⟩ :=
        mergeCallingContexts_spec registry
          (finalized t List.mem_cons_self)
          (fun _ => definable t List.mem_cons_self) state
      obtain ⟨tables, merged, next, finished, exactRest, keptRest, restPaths⟩ :=
        induction (fun other member =>
            finalized other (List.mem_cons_of_mem _ member))
          middle
          (fun other member cctx needs present =>
            find?_isSome_of_kept keptFirst
              (definable other (List.mem_cons_of_mem _ member) cctx needs present))
          between
      refine ⟨table :: tables, merged, next, ?_,
        .cons (exactTable.mono keptRest) exactRest,
        fun path definition known =>
          keptRest path definition (keptFirst path definition known), ?_⟩
      · rw [mergeAll, walked]
        simp only [finished]
      · intro path
        rw [restPaths, firstPaths, or_assoc]
        simp

theorem valueAt_eq_none_of_numCctx {t : LocalCctxTree} (finalized : t.Finalized)
    (empty : t.numCctx = 0) (path : List EnteredContext) :
    t.tree.children.valueAt path = none := by
  obtain ⟨_, running, reachable, rfl⟩ := finalized
  have refs := (LocalCctxTree.Invariant.reachable reachable).tree.refs
  rw [show running.nextCctxRef = 0 from empty, List.range_zero,
    List.perm_nil] at refs
  cases path with
  | nil => rfl
  | cons key path =>
      rw [← Option.not_isSome_iff_eq_none]
      intro present
      obtain ⟨ref, found⟩ := Option.isSome_iff_exists.mp present
      have member := Node.valueAt_mem_values
        ((Forest.valueAt_children key path running.tree).trans found)
        (List.cons_ne_nil _ _)
      rw [refs] at member
      cases member

/-- `Trace::finalize` reaches the same paths as merging every tree. -/
theorem finalizeTrees_spec {trees : List LocalCctxTree}
    (finalized : ∀ t ∈ trees, t.Finalized) {global : Forest EnteredContext δ}
    (definable : ∀ t ∈ trees, ∀ cctx, EnteredContext.NeedsParent cctx →
      (t.tree.children.find? cctx).isSome → (global.find? cctx).isSome)
    (state : σ) :
    ∃ tables merged next,
      registry.finalizeTrees trees global state = .ok (tables, merged, next) ∧
      List.Forall₂ (ExactTable registry merged)
        (trees.filter fun t => 0 < t.numCctx) tables ∧
      ∀ path, (merged.valueAt path).isSome ↔
        (global.valueAt path).isSome ∨
          ∃ t ∈ trees, (t.tree.children.valueAt path).isSome := by
  obtain ⟨tables, merged, next, walked, exactTables, _, paths⟩ :=
    mergeAll_spec registry
      (fun t (member : t ∈ trees.filter fun t => 0 < t.numCctx) =>
        finalized t (List.mem_filter.mp member).1)
      global
      (fun t member => definable t (List.mem_filter.mp member).1) state
  refine ⟨tables, merged, next, walked, exactTables, fun path => ?_⟩
  rw [paths]
  refine or_congr_right ⟨?_, ?_⟩
  · intro holds
    obtain ⟨t, member, present⟩ := holds
    exact ⟨t, (List.mem_filter.mp member).1, present⟩
  · intro holds
    obtain ⟨t, member, present⟩ := holds
    refine ⟨t, List.mem_filter.mpr ⟨member, ?_⟩, present⟩
    by_cases empty : t.numCctx = 0
    · simp [valueAt_eq_none_of_numCctx (finalized t member) empty] at present
    · simpa using Nat.pos_of_ne_zero empty

/-- Finalized trees are merged exactly, in whatever order they come, provided
that no sample address, kernel or OpenMP context has to be defined directly
below the root, where there is no parent definition. -/
theorem mergeAll_exact {trees order : List LocalCctxTree}
    (reordered : order.Perm trees) (finalized : ∀ t ∈ trees, t.Finalized)
    (global : Forest EnteredContext δ)
    (definable : ∀ t ∈ trees, ∀ cctx, EnteredContext.NeedsParent cctx →
      (t.tree.children.find? cctx).isSome → (global.find? cctx).isSome)
    (state : σ) :
    ∃ tables merged next,
      registry.mergeAll order global state = .ok (tables, merged, next) ∧
      List.Forall₂ (ExactTable registry merged) order tables ∧
      (∀ path definition, global.valueAt path = some definition →
        merged.valueAt path = some definition) ∧
      ∀ path, (merged.valueAt path).isSome ↔
        (global.valueAt path).isSome ∨
          ∃ t ∈ trees, (t.tree.children.valueAt path).isSome := by
  obtain ⟨tables, merged, next, walked, exactTables, kept, paths⟩ :=
    mergeAll_spec registry
      (fun t member => finalized t (reordered.subset member)) global
      (fun t member => definable t (reordered.subset member)) state
  refine ⟨tables, merged, next, walked, exactTables, kept, fun path => ?_⟩
  rw [paths]
  simp only [reordered.mem_iff]

/-- A registry that numbers its definitions as it makes them. -/
def counting : CctxRegistry Nat (Fin 1000) where
  ref definition := UInt32.ofNat definition
  ref_defined definition same := by
    have numbers := congrArg UInt32.toNat same
    simp only [UInt32.toNat_ofNat', undefinedRef] at numbers
    have small := definition.isLt
    simp at numbers
    omega
  address _ _ _ next := (Fin.ofNat 1000 next, next + 1)
  gpuKernel _ _ _ next := (Fin.ofNat 1000 next, next + 1)
  openmp _ _ _ next := (Fin.ofNat 1000 next, next + 1)
  thread _ _ next := (Fin.ofNat 1000 next, next + 1)
  process _ next := (Fin.ofNat 1000 next, next + 1)
  syscall _ next := (Fin.ofNat 1000 next, next + 1)

/-- A thread with a sample in it, merged into an empty tree. -/
theorem mergeAll_exact_thread :
    ∃ t, LocalCctxTree.call (.init 0)
        (.enter 1 1 (.process ⟨7⟩ ⟨0, 0, 0⟩) [.thread ⟨8⟩ ⟨0, 0, 0⟩,
          .sample 64 ⟨0, 0, 0⟩]) = .ok t ∧
      ∃ tables merged next,
        counting.mergeAll [t.finalize] .nil 0 = .ok (tables, merged, next) ∧
        List.Forall₂ (ExactTable counting merged) [t.finalize] tables := by
  refine ⟨_, rfl, ?_⟩
  obtain ⟨tables, merged, next, walked, exactTables, _⟩ :=
    mergeAll_exact counting (.refl [_])
      (fun t member => by
        rw [List.mem_singleton.mp member]
        exact ⟨0, _, .step .start (show LocalCctxTree.call _
          (.enter 1 1 (.process ⟨7⟩ ⟨0, 0, 0⟩)
            [.thread ⟨8⟩ ⟨0, 0, 0⟩, .sample 64 ⟨0, 0, 0⟩]) = .ok _ from rfl),
          rfl⟩)
      .nil
      (fun t member cctx needs present => by
        rw [List.mem_singleton.mp member] at present
        change (if Equivalent (.process ⟨7⟩ ⟨0, 0, 0⟩) cctx then some _
          else none).isSome = true at present
        split at present
        · have kind := EnteredContext.type_eq_of_equivalent ‹_›
          rw [EnteredContext.NeedsParent, ← kind] at needs
          exact absurd needs (by decide)
        · cases present)
      0
  exact ⟨tables, merged, next, walked, exactTables⟩

/-- A sample on a fresh location hangs below the root, and its definition is
asked for below a null one. -/
theorem sample_below_root :
    ∃ t, LocalCctxTree.Finalized t ∧
      counting.mergeAll [t] .nil 0 = .error .invalidAccess :=
  ⟨_, ⟨0, _, .step .start (show LocalCctxTree.call _
    (.sampleIp 1 64 ⟨0, 0, 0⟩) = .ok _ from rfl), rfl⟩, rfl⟩

end CctxRegistry

end Lo2s
