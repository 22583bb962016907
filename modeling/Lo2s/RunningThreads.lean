import Lo2s.ProcessController
import Lo2s.SysfsEventAttr
import Lo2s.TraceProcesses
import Mathlib.Data.List.Sort

/-!
# Threads that run already

For each process in `/proc`, `get_comms_for_running_threads` reads the names of
its threads, and `emplace_threads` puts them into the trace.  A process or a
thread can be gone whenever it is asked for: its directory cannot be opened, or
not be read to its end, or a file in it cannot be read.  What is read by then
is kept, so that each of these answers is part of the state of `/proc`.
-/

namespace Lo2s

open Foundation

/-- An entry of a task directory, with the contents of its `comm` file if the
thread is still there when that is read. -/
structure TaskEntry where
  name : List Char
  comm : Option (List Char)
  deriving DecidableEq, Repr

/-- The entries of a task directory that are read, and whether the process is
gone before the directory is at its end. -/
structure TaskDirectory where
  entries : List TaskEntry
  vanishes : Bool
  deriving DecidableEq, Repr

/-- An entry of `/proc`, with its task directory if that can be opened. -/
structure ProcEntry where
  name : List Char
  task : Option TaskDirectory
  deriving DecidableEq, Repr

/-- What a directory iterator throws. -/
inductive IteratorError where
  | cannotOpen
  | cannotAdvance
  deriving DecidableEq, Repr

/-- `std::map<Thread, std::string>` of one process. -/
abbrev Comms := FiniteMap Thread String

abbrev RunningThreads := FiniteMap Process Comms

/-- The id an entry is named by; what `std::stoi` throws is caught. -/
def idOf? (name : List Char) : Option Int64 :=
  match StrTol.stoi name with
  | .ok id => some (Int64.ofInt id)
  | .error _ => none

def getTaskComm (thread : Thread) (comm : Option (List Char)) : String :=
  match token comm with
  | some name => String.ofList name
  | none => "[thread " ++ toString thread.tid ++ "]"

/-- The body of the loop over a task directory. -/
def addTask (curProcess : Comms) (entry : TaskEntry) : Comms :=
  match idOf? entry.name with
  | none => curProcess
  | some tid =>
      let thread : Thread := ⟨tid⟩
      curProcess.insertIfNew thread (getTaskComm thread entry.comm)

/-- The loop over a task directory. -/
def scanTask (task : Option TaskDirectory) :
    Stateful Comms IteratorError Unit :=
  match task with
  | none => throw .cannotOpen
  | some directory => do
      modify fun curProcess => directory.entries.foldl addTask curProcess
      if directory.vanishes then throw .cannotAdvance

/-- The body of the loop over `/proc`, which keeps what has been read when an
exception is caught. -/
def scanProcess (ret : RunningThreads) (entry : ProcEntry) : RunningThreads :=
  match idOf? entry.name with
  | none => ret
  | some pid =>
      let process : Process := ⟨pid⟩
      let curProcess := (ret.lookup process).getD ∅
      ret.insert process
        (tryCatch (scanTask entry.task) (fun _ => pure ()) curProcess).2

def getCommsForRunningThreads (proc : List ProcEntry) : RunningThreads :=
  proc.foldl scanProcess ∅

/-- An entry of `/proc` is named by the process. -/
def Listed (proc : List ProcEntry) (process : Process) : Prop :=
  ∃ entry ∈ proc, idOf? entry.name = some process.pid

/-- The directory has an entry that is named by the thread. -/
def TaskDirectory.Has (directory : TaskDirectory) (thread : Thread) : Prop :=
  ∃ entry ∈ directory.entries, idOf? entry.name = some thread.tid

/-- The thread is read in a task directory of the process. -/
def Seen (proc : List ProcEntry) (process : Process) (thread : Thread) : Prop :=
  ∃ entry ∈ proc, idOf? entry.name = some process.pid ∧
    ∃ directory, entry.task = some directory ∧ directory.Has thread

theorem process_eq_iff {process : Process} {pid : Int64} :
    process = ⟨pid⟩ ↔ pid = process.pid := by
  constructor
  · intro same
    rw [same]
  · intro same
    rw [same]

theorem thread_eq_iff {thread : Thread} {tid : Int64} :
    thread = ⟨tid⟩ ↔ tid = thread.tid := by
  constructor
  · intro same
    rw [same]
  · intro same
    rw [same]

theorem mem_foldl_addTask (entries : List TaskEntry) (comms : Comms)
    (thread : Thread) :
    thread ∈ entries.foldl addTask comms ↔
      thread ∈ comms ∨
        ∃ entry ∈ entries, idOf? entry.name = some thread.tid := by
  induction entries generalizing comms with
  | nil => simp
  | cons entry entries induction =>
      have added : thread ∈ addTask comms entry ↔
          thread ∈ comms ∨ idOf? entry.name = some thread.tid := by
        unfold addTask
        cases named : idOf? entry.name with
        | none => simp
        | some tid =>
            rw [FiniteMap.mem_insertIfNew, Option.some.injEq, thread_eq_iff]
            exact or_comm
      rw [List.foldl_cons, induction, added, List.exists_mem_cons_iff, or_assoc]

theorem mem_scanTask (task : Option TaskDirectory) (comms : Comms)
    (thread : Thread) :
    thread ∈ (tryCatch (scanTask task) (fun _ => pure ()) comms).2 ↔
      thread ∈ comms ∨ ∃ directory, task = some directory ∧
        directory.Has thread := by
  cases task with
  | none =>
      change thread ∈ comms ↔ _
      simp
  | some directory =>
      have read : (tryCatch (scanTask (some directory)) (fun _ => pure ())
          comms).2 = directory.entries.foldl addTask comms := by
        obtain ⟨entries, vanishes⟩ := directory
        cases vanishes with
        | false => rfl
        | true => rfl
      rw [read, mem_foldl_addTask]
      simp [TaskDirectory.Has]

/-- The map holds what has been seen so far. -/
structure Scanned (proc : List ProcEntry) (ret : RunningThreads) : Prop where
  processes : ∀ process, process ∈ ret ↔ Listed proc process
  threads : ∀ process comms, ret.lookup process = some comms →
    ∀ thread, thread ∈ comms ↔ Seen proc process thread

theorem listed_concat {proc : List ProcEntry} {entry : ProcEntry}
    {process : Process} :
    Listed (proc ++ [entry]) process ↔
      Listed proc process ∨ idOf? entry.name = some process.pid := by
  simp [Listed, or_and_right, exists_or]

theorem seen_concat {proc : List ProcEntry} {entry : ProcEntry}
    {process : Process} {thread : Thread} :
    Seen (proc ++ [entry]) process thread ↔
      Seen proc process thread ∨ idOf? entry.name = some process.pid ∧
        ∃ directory, entry.task = some directory ∧
          directory.Has thread := by
  simp [Seen, or_and_right, exists_or]

theorem Seen.listed {proc : List ProcEntry} {process : Process}
    {thread : Thread} (seen : Seen proc process thread) :
    Listed proc process := by
  obtain ⟨entry, member, named, _⟩ := seen
  exact ⟨entry, member, named⟩

/-- A process that is not in the map yet starts without threads. -/
theorem Scanned.mem_curProcess {proc : List ProcEntry} {ret : RunningThreads}
    (scanned : Scanned proc ret) {process : Process} {thread : Thread} :
    thread ∈ (ret.lookup process).getD ∅ ↔ Seen proc process thread := by
  cases found : ret.lookup process with
  | some comms => exact scanned.threads process comms found thread
  | none =>
      rw [Option.getD_none]
      apply iff_of_false
      · exact AList.notMem_empty thread
      · intro seen
        exact AList.lookup_eq_none.mp found
          ((scanned.processes process).mpr seen.listed)

theorem Scanned.scanProcess {proc : List ProcEntry} {ret : RunningThreads}
    (scanned : Scanned proc ret) (entry : ProcEntry) :
    Scanned (proc ++ [entry]) (scanProcess ret entry) := by
  unfold Lo2s.scanProcess
  cases named : idOf? entry.name with
  | none =>
      constructor
      · intro process
        rw [scanned.processes, listed_concat, named]
        simp
      · intro process comms found thread
        rw [scanned.threads process comms found, seen_concat, named]
        simp
  | some pid =>
      constructor
      · intro process
        rw [AList.mem_insert, scanned.processes, listed_concat, named,
          Option.some.injEq, process_eq_iff]
        exact or_comm
      · intro process comms found thread
        rw [FiniteMap.lookup_insert] at found
        rw [seen_concat, named, Option.some.injEq, ← process_eq_iff]
        split_ifs at found with same
        · cases found
          subst same
          rw [mem_scanTask, scanned.mem_curProcess, eq_self, true_and]
        · rw [scanned.threads process comms found]
          simp [same]

theorem Scanned.foldl {earlier : List ProcEntry} {ret : RunningThreads}
    (scanned : Scanned earlier ret) (proc : List ProcEntry) :
    Scanned (earlier ++ proc) (proc.foldl Lo2s.scanProcess ret) := by
  induction proc generalizing earlier ret with
  | nil => rwa [List.append_nil]
  | cons entry proc induction =>
      have next := induction (scanned.scanProcess entry)
      rwa [List.append_assoc] at next

/-- The map that is returned has the processes that are listed, and below them
the threads that have been seen. -/
theorem scanned_getCommsForRunningThreads (proc : List ProcEntry) :
    Scanned proc (getCommsForRunningThreads proc) := by
  have nothing : Scanned [] ∅ := by
    constructor
    · intro process
      simp [Listed]
    · intro process comms found
      cases found
  exact nothing.foldl proc

/-- The parts of the trace that know about threads: the registry, `groups_` and
the members of `kernel_regions_group_`. -/
structure TraceThreads (ρ : Type) where
  registry : TraceRegistry ρ
  groups : ExecutionScopeGroup
  kernelRegions : List Thread

namespace TraceThreads

/-- A computation on the trace. -/
abbrev Tracing (ρ : Type) := Stateful (TraceThreads ρ) Failure

/-- A trace whose constructor has run. -/
def init {ρ : Type} (registry : TraceRegistry ρ) (cpus : List Int64) :
    TraceThreads ρ :=
  ⟨registry, .ofTrace cpus, []⟩

/-- A change of the registry. -/
def defining {ρ : Type} (body : TraceLibrary.Defining ρ Unit) :
    Tracing ρ Unit := fun s =>
  ((body s.registry).1, { s with registry := (body s.registry).2 })

variable {ρ : Type} (library : TraceLibrary ρ) (isKernelThread : Thread → Bool)

/-- The part of `emplace_thread_exclusive` for a thread without a calling
context. -/
def createThread (thread : Thread) (name : String) (s : TraceThreads ρ) :
    TraceThreads ρ :=
  let threadName := if thread = ⟨0⟩ then "<idle>" else name
  let iname := if thread = ⟨0⟩ then threadName
    else name ++ " (" ++ toString thread.tid ++ ")"
  let definitions :=
    library.emplace (.region thread) iname s.registry.definitions
  { s with
    registry :=
      { definitions := library.emplace (.callingContext thread) iname definitions
        threadNames := s.registry.threadNames.insertIfNew thread threadName }
    kernelRegions :=
      if isKernelThread thread then s.kernelRegions ++ [thread]
      else s.kernelRegions }

def emplaceThreadExclusive (process : Process) (thread : Thread)
    (name : String) : Tracing ρ Unit := do
  defining (library.emplaceProcess .noParent process "")
  modify fun s => { s with groups := s.groups.addThread thread process }
  let s ← get
  if library.has s.registry.definitions (.callingContext thread) then
    defining (library.updateThread thread name)
  else modify (createThread library isKernelThread thread name)

/-- The loop over the threads of a process. -/
def emplaceComms (process : Process) : List (Thread × String) → Tracing ρ Unit
  | [] => pure ()
  | (thread, name) :: comms => do
      emplaceThreadExclusive library isKernelThread process thread name
      emplaceComms process comms

/-- The loop over the processes.  The name of a process is that of its main
thread, which `at` looks up. -/
def emplaceProcesses : List (Process × Comms) → Tracing ρ Unit
  | [] => pure ()
  | (process, comms) :: processes =>
      match comms.lookup ⟨process.pid⟩ with
      | none => throw .outOfRange
      | some name => do
          defining (library.emplaceProcess .noParent process name)
          emplaceComms library isKernelThread process
            (comms.ascending fun left right => left.tid ≤ right.tid)
          emplaceProcesses processes

def emplaceThreads (threadMap : RunningThreads) : Tracing ρ Unit :=
  emplaceProcesses library isKernelThread
    (threadMap.ascending fun left right => left.pid ≤ right.pid)

end TraceThreads

end Lo2s
