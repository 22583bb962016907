import Lo2s.LocalCctxTree

/-!
# Merging local calling-context trees

When a trace is finalized, the local trees are merged into one global tree, and
each location gets a table from its local references to the references of the
global definitions.

The definitions themselves come from the registry of the trace library, through
functions that intern names and look addresses up in the resolvers.  They are
kept abstract: what the merge sees of a definition is its reference.
-/

namespace Lo2s

open Foundation

/-- `-1u`, what the mapping table of a debug build is filled with. -/
def undefinedRef : UInt32 := 0 - 1

/-- What the trace makes definitions with.  `σ` is the state of the registry,
the interned names and the resolvers; a definition of type `δ` keeps its
reference. -/
structure CctxRegistry (σ : Type u) (δ : Type v) where
  ref : δ → UInt32
  ref_defined : ∀ definition, ref definition ≠ undefinedRef
  address (addr : UInt64) (p : Process) (parent : δ) (state : σ) : δ × σ
  gpuKernel (kernelId : UInt64) (p : Process) (parent : δ) (state : σ) : δ × σ
  openmp (cctx : OMPTCctx) (p : Process) (parent : δ) (state : σ) : δ × σ
  thread (t : Thread) (p : Process) (state : σ) : δ × σ
  process (p : Process) (state : σ) : δ × σ
  syscall (id : Int64) (state : σ) : δ × σ

/-- `mapping_table`, with a log of the slots written so far. -/
structure MappingTable where
  slots : List UInt32
  written : List Nat
  deriving DecidableEq, Repr

/-- `mapping_table.at(slot) = ref`. -/
def MappingTable.put (table : MappingTable) (slot : Nat) (ref : UInt32) :
    Except Failure MappingTable :=
  if slot < table.slots.length then
    .ok ⟨table.slots.set slot ref, table.written ++ [slot]⟩
  else .error .outOfRange

/-- What `merge_nodes` changes besides the global tree; `p` is the process of
`MergeContext`. -/
structure MergeState (σ : Type u) where
  registry : σ
  p : Process
  table : MappingTable

namespace CctxRegistry

variable {σ : Type u} {δ : Type v} (registry : CctxRegistry σ δ)

/-- The `switch` of `merge_nodes`.  `parent` is `global_node->second.cctx`,
which is null for the root and dereferenced by three of the functions. -/
def define (cctx : EnteredContext) (parent : Option δ) (p : Process)
    (state : σ) : Except Failure (δ × σ) :=
  match cctx.context.type, parent with
  | .sampleAddr, some parent =>
      .ok (registry.address cctx.context.addr p parent state)
  | .gpuKernel, some parent =>
      .ok (registry.gpuKernel cctx.context.kernelId p parent state)
  | .openmp, some parent =>
      .ok (registry.openmp cctx.context.ompCctx p parent state)
  | .sampleAddr, none => .error .invalidAccess
  | .gpuKernel, none => .error .invalidAccess
  | .openmp, none => .error .invalidAccess
  | .thread, _ => .ok (registry.thread cctx.context.t p state)
  | .process, _ => .ok (registry.process cctx.context.p state)
  | .syscall, _ =>
      .ok (registry.syscall cctx.context.syscallId.toInt64 state)
  | .root, _ => .error (.runtimeError
      "The cctx tree ROOT should not appear in merge_nodes!")

/-- The child of a global node for a context, defined if need be. -/
def findOrDefine (cctx : EnteredContext) (parent : Option δ)
    (global : Forest EnteredContext δ) (s : MergeState σ) :
    Except Failure (Forest EnteredContext δ ×
      (EnteredContext × Node EnteredContext δ) × MergeState σ) :=
  match global.find? cctx with
  | some found => .ok (global, found, s)
  | none =>
      match registry.define cctx parent s.p s.registry with
      | .error failure => .error failure
      | .ok (newCctx, state) =>
          let r := global.emplace cctx newCctx
          .ok (r.1, r.2.1, { s with registry := state })

/-- `merge_nodes`, on the children of a local and of a global node. -/
def mergeNodes : Forest EnteredContext Nat → Option δ →
    Forest EnteredContext δ → MergeState σ →
    Except Failure (Forest EnteredContext δ × MergeState σ)
  | .nil, _, global, s => .ok (global, s)
  | .entry cctx ref children siblings, parent, global, s =>
      match registry.findOrDefine cctx parent global s with
      | .error failure => .error failure
      | .ok (global, globalChild, s) =>
      match s.table.put ref (registry.ref globalChild.2.value) with
      | .error failure => .error failure
      | .ok table =>
      let p := if globalChild.1.context.type = .process then
          globalChild.1.context.p else s.p
      match mergeNodes children (some globalChild.2.value)
          globalChild.2.children { s with p := p, table := table } with
      | .error failure => .error failure
      | .ok (merged, s) =>
          mergeNodes siblings parent
            (global.update cctx fun child => { child with children := merged }) s

/-- `merge_calling_contexts`, in a debug build. -/
def mergeCallingContexts (localCctxs : LocalCctxTree)
    (global : Forest EnteredContext δ) (state : σ) :
    Except Failure (MappingTable × Forest EnteredContext δ × σ) :=
  let mappings : MappingTable :=
    ⟨List.replicate localCctxs.numCctx undefinedRef, []⟩
  match registry.mergeNodes localCctxs.tree.children none global
      ⟨state, ⟨-1⟩, mappings⟩ with
  | .error failure => .error failure
  | .ok (global, s) =>
      if undefinedRef ∈ s.table.slots then .error (.assertion "id != -1u")
      else .ok (s.table, global, s.registry)

/-- Merging one local tree after the other. -/
def mergeAll : List LocalCctxTree → Forest EnteredContext δ → σ →
    Except Failure (List MappingTable × Forest EnteredContext δ × σ)
  | [], global, state => .ok ([], global, state)
  | localCctxs :: rest, global, state =>
      match registry.mergeCallingContexts localCctxs global state with
      | .error failure => .error failure
      | .ok (table, global, state) =>
          match mergeAll rest global state with
          | .error failure => .error failure
          | .ok (tables, global, state) => .ok (table :: tables, global, state)

/-- The loop of `Trace::finalize`, which passes over trees without nodes. -/
def finalizeTrees (trees : List LocalCctxTree)
    (global : Forest EnteredContext δ) (state : σ) :
    Except Failure (List MappingTable × Forest EnteredContext δ × σ) :=
  registry.mergeAll (trees.filter fun tree => 0 < tree.numCctx) global state

end CctxRegistry

end Lo2s
