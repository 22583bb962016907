import Lo2s.Foundation.FiniteMap
import Lo2s.Foundation.ParentLinks
import Lo2s.Foundation.Run
import Lo2s.Foundation.Stateful
import Lo2s.Types

/-!
# Processes in the trace

The trace keeps a node of the system tree for every process, below the node of
its parent or below the root, with definitions that carry the same name.  A
process that is emplaced again gets a new name and a new parent.  The registry
that keeps the definitions belongs to the trace library.
-/

namespace Lo2s

open Foundation

/-- `Process::no_parent()`. -/
def Process.noParent : Process := ⟨0⟩

/-- The keys of the definitions of processes and threads, apart from the nodes
of the system tree. -/
inductive TraceKey where
  | locationGroup (scope : ExecutionScope)
  | commGroup (process : Process)
  | comm (process : Process)
  | region (thread : Thread)
  | sampleLocation (thread : Thread)
  | callingContext (thread : Thread)
  deriving DecidableEq, Repr

/-- The definitions of processes and threads in the registry of the trace
library.  The parent `none` of a node is `system_tree_root_node_`; a calling
context is made with the name of its region. -/
structure TraceLibrary (ρ : Type) where
  links : ρ → ParentLinks Process
  createNode (process : Process) (name : String) (parent : Option Process)
    (r : ρ) : ρ
  renameNode (process : Process) (name : String) (r : ρ) : ρ
  linkNode (process parent : Process) (r : ρ) : ρ
  has : ρ → TraceKey → Bool
  emplace (key : TraceKey) (name : String) (r : ρ) : ρ
  rename (key : TraceKey) (name : String) (r : ρ) : ρ

/-- What the library is relied on for: a node has the parent it has been given
last, and whatever has been defined stays. -/
structure TraceLibrary.Lawful {ρ : Type} (library : TraceLibrary ρ) : Prop where
  links_createNode : ∀ {r process} (name : String) (parent : Option Process),
    library.links r process = none →
      library.links (library.createNode process name parent r) =
        (library.links r).relink process parent
  links_renameNode : ∀ {r process} (name : String),
    library.links r process ≠ none →
      library.links (library.renameNode process name r) = library.links r
  links_linkNode : ∀ {r process parent}, library.links r process ≠ none →
    library.links r parent ≠ none →
      library.links (library.linkNode process parent r) =
        (library.links r).relink process (some parent)
  links_emplace : ∀ (key : TraceKey) (name : String) (r : ρ),
    library.links (library.emplace key name r) = library.links r
  links_rename : ∀ {r key} (name : String), library.has r key →
    library.links (library.rename key name r) = library.links r
  has_createNode : ∀ {r process} (name : String) (parent : Option Process),
    library.links r process = none →
      library.has (library.createNode process name parent r) = library.has r
  has_renameNode : ∀ {r process} (name : String),
    library.links r process ≠ none →
      library.has (library.renameNode process name r) = library.has r
  has_linkNode : ∀ {r process parent}, library.links r process ≠ none →
    library.links r parent ≠ none →
      library.has (library.linkNode process parent r) = library.has r
  has_emplace : ∀ (key : TraceKey) (name : String) (r : ρ) (other : TraceKey),
    library.has (library.emplace key name r) other ↔
      other = key ∨ library.has r other
  has_rename : ∀ {r key} (name : String), library.has r key →
    library.has (library.rename key name r) = library.has r

/-- The registry and `thread_names_`. -/
structure TraceRegistry (ρ : Type) where
  definitions : ρ
  threadNames : FiniteMap Thread String

namespace TraceLibrary

variable {ρ : Type} (library : TraceLibrary ρ)

/-- A computation on the registry. -/
abbrev Defining (ρ : Type) := Stateful (TraceRegistry ρ) Failure

/-- `registry_.get<...>(...).name(iname)`. -/
def renameDefinition (key : TraceKey) (name : String) : Defining ρ Unit := do
  let r ← get
  if library.has r.definitions key then
    set { r with definitions := library.rename key name r.definitions }
  else throw .outOfRange

/-- The location of the samples of a thread is renamed if there is one. -/
def renameSampleLocation (thread : Thread) (name : String) :
    Defining ρ Unit := do
  let r ← get
  if library.has r.definitions (.sampleLocation thread) then
    library.renameDefinition (.sampleLocation thread) name

/-- `registry_.get<system_tree_node>(...).name(iname)`. -/
def renameProcessNode (process : Process) (name : String) :
    Defining ρ Unit := do
  let r ← get
  if (library.links r.definitions process).isSome then
    set { r with definitions := library.renameNode process name r.definitions }
  else throw .outOfRange

/-- `thread_names_[thread] = name`. -/
def setThreadName (thread : Thread) (name : String) : Defining ρ Unit :=
  modify fun r => { r with threadNames := r.threadNames.insert thread name }

/-- What `catch (const std::out_of_range&)` does, apart from a warning. -/
def catchOutOfRange (body : Defining ρ Unit) : Defining ρ Unit :=
  tryCatch body fun thrown =>
    if thrown = .outOfRange then pure () else throw thrown

def updateThread (thread : Thread) (name : String) : Defining ρ Unit :=
  if name = "" then pure ()
  else catchOutOfRange do
    let iname := name ++ " (" ++ toString thread.tid ++ ")"
    library.renameDefinition (.region thread) iname
    library.renameSampleLocation thread iname
    setThreadName thread name

/-- `intern_process_node`, the root for a process that is not known. -/
def internProcessNode (process : Process) (r : TraceRegistry ρ) :
    Option Process :=
  if (library.links r.definitions process).isSome then some process else none

/-- The part of `emplace_process` for a process that is not known. -/
def createProcess (parent process : Process) (name : String)
    (r : TraceRegistry ρ) : TraceRegistry ρ :=
  let parentNode :=
    if parent = .noParent then none else library.internProcessNode parent r
  let definitions := library.createNode process name parentNode r.definitions
  let definitions :=
    library.emplace (.locationGroup (.process process)) name definitions
  let definitions := library.emplace (.commGroup process) name definitions
  { definitions := library.emplace (.comm process) name definitions
    threadNames := r.threadNames.insertIfNew ⟨process.pid⟩ name }

/-- The last statement of `update_process`, which looks both nodes up. -/
def setParent (parent process : Process) : Defining ρ Unit := do
  let r ← get
  if (library.links r.definitions parent).isSome ∧
      (library.links r.definitions process).isSome then
    set { r with definitions := library.linkNode process parent r.definitions }
  else throw .outOfRange

/-- The part of `update_process` about the name. -/
def updateProcessName (process : Process) (name : String) : Defining ρ Unit :=
  if name = "" then pure ()
  else catchOutOfRange do
    library.renameProcessNode process name
    library.renameDefinition (.locationGroup (.process process)) name
    library.renameDefinition (.commGroup process) name
    library.renameDefinition (.comm process) name
    library.updateThread ⟨process.pid⟩ name

mutual

def emplaceProcess (parent process : Process) (name : String) :
    Defining ρ Unit := do
  let r ← get
  if (library.links r.definitions process).isSome then
    updateProcess parent process name
  else
    set (library.createProcess parent process name r)
termination_by (if parent = .noParent then 0 else 1, 1)

def updateProcess (parent process : Process) (name : String) :
    Defining ρ Unit := do
  library.updateProcessName process name
  if parent ≠ .noParent then
    emplaceProcess .noParent parent ""
    library.setParent parent process
termination_by (if parent = .noParent then 0 else 1, 0)
decreasing_by
  apply Prod.Lex.left
  rw [if_pos trivial, if_neg ‹_›]
  decide

end

end TraceLibrary

/-- A call of `emplace_process`. -/
structure EmplaceProcess where
  parent : Process
  process : Process
  name : String
  deriving DecidableEq, Repr

/-- The registry after a call. -/
def TraceLibrary.step {ρ : Type} (library : TraceLibrary ρ)
    (r : TraceRegistry ρ) (call : EmplaceProcess) :
    Except Failure (TraceRegistry ρ) :=
  match library.emplaceProcess call.parent call.process call.name r with
  | (.ok _, r) => .ok r
  | (.error failure, _) => .error failure

/-- `otf2::definition::system_tree_node` of a process. -/
structure SystemTreeNode where
  name : String
  parent : Option Process
  deriving DecidableEq, Repr

/-- Definitions that are kept in two maps. -/
structure TraceTables where
  nodes : FiniteMap Process SystemTreeNode
  names : FiniteMap TraceKey String
  deriving DecidableEq

/-- Before any process is known. -/
def TraceRegistry.empty : TraceRegistry TraceTables := ⟨⟨∅, ∅⟩, ∅⟩

namespace TraceLibrary

/-- The library whose registry is a pair of maps. -/
def ofTables : TraceLibrary TraceTables where
  links r process := (r.nodes.lookup process).map SystemTreeNode.parent
  createNode process name parent r :=
    { r with nodes := r.nodes.insert process ⟨name, parent⟩ }
  renameNode process name r :=
    let parent := ((r.nodes.lookup process).map SystemTreeNode.parent).getD none
    { r with nodes := r.nodes.insert process ⟨name, parent⟩ }
  linkNode process parent r :=
    let name := ((r.nodes.lookup process).map SystemTreeNode.name).getD ""
    { r with nodes := r.nodes.insert process ⟨name, some parent⟩ }
  has r key := key ∈ r.names
  emplace key name r := { r with names := r.names.insertIfNew key name }
  rename key name r := { r with names := r.names.insert key name }

theorem links_ofTables_insert (r : TraceTables) (process : Process)
    (node : SystemTreeNode) :
    ofTables.links { r with nodes := r.nodes.insert process node } =
      (ofTables.links r).relink process node.parent := by
  funext other
  simp only [ofTables, ParentLinks.relink, FiniteMap.lookup_insert]
  by_cases same : other = process
  · rw [if_pos same, same, Function.update_self]
    rfl
  · rw [if_neg same, Function.update_of_ne same]

theorem ofTables_lawful : ofTables.Lawful where
  links_createNode {r process} name parent _ := links_ofTables_insert r process _
  links_renameNode {r process} name known := by
    obtain ⟨parent, found⟩ := Option.ne_none_iff_exists'.mp known
    have stored := links_ofTables_insert r process
      ⟨name, (ofTables.links r process).getD none⟩
    refine stored.trans ?_
    apply Function.update_eq_self_iff.mpr
    rw [found]
    rfl
  links_linkNode {r process parent} _ _ := links_ofTables_insert r process _
  links_emplace _ _ _ := rfl
  links_rename _ _ := rfl
  has_createNode _ _ _ := rfl
  has_renameNode _ _ := rfl
  has_linkNode _ _ := rfl
  has_emplace key name r other := by
    simp only [ofTables, decide_eq_true_iff]
    exact FiniteMap.mem_insertIfNew
  has_rename {r key} name known := by
    funext other
    simp only [ofTables, decide_eq_true_iff] at known ⊢
    apply decide_eq_decide.mpr
    rw [AList.mem_insert]
    constructor
    · rintro (rfl | there)
      · exact known
      · exact there
    · exact .inr

end TraceLibrary

end Lo2s
