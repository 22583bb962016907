import Lo2s.Resolvers

/-!
# The process monitor

`ProcessMonitor` follows a tree of processes: it monitors their threads, each
with a sample writer of its own, and keeps the resolvers of all processes.
-/

namespace Lo2s

open Std Foundation

variable {ρ : Type}

/-- What the configuration says about the monitors of threads: whether there
are any, whether they sample, and what their sample writers are made with. -/
structure MonitorConfig where
  hasThreadMonitors : Bool
  hasSampleWriter : Bool
  trace : Trace
  recordCallgraph : Bool
  timeConverter : Converter
  unwritten : UnwrittenWords
  interruptGenerator : Nat

/-- `ScopeMonitor`, of which only the sample writer takes part. -/
structure ScopeMonitor where
  sampleWriter : Option SampleWriter

namespace ScopeMonitor

/-- The constructor. -/
def init (config : MonitorConfig) (scope : ExecutionScope) (now : TimePoint) :
    ScopeMonitor :=
  if config.hasSampleWriter then
    ⟨some (.init scope config.trace config.recordCallgraph
      config.timeConverter config.unwritten config.interruptGenerator now)⟩
  else ⟨none⟩

/-- `stop()`, which ends the sample writer. -/
def stop (now : TimePoint) : ScopeMonitor → Except Failure ScopeMonitor
  | ⟨none⟩ => .ok ⟨none⟩
  | ⟨some writer⟩ =>
      match writer.end_ now with
      | .error failure => .error failure
      | .ok writer => .ok ⟨some writer⟩

def emplaceResolvers (source : ResolverSource ρ) (r : Resolvers ρ) :
    ScopeMonitor → Except Failure (Resolvers ρ)
  | ⟨none⟩ => .ok r
  | ⟨some writer⟩ => writer.emplaceResolvers source r

/-- `stop()` and `emplace_resolvers`, as a thread ends. -/
def close (source : ResolverSource ρ) (now : TimePoint) (r : Resolvers ρ)
    (monitor : ScopeMonitor) : Except Failure (Resolvers ρ) :=
  match monitor.stop now with
  | .error failure => .error failure
  | .ok monitor => monitor.emplaceResolvers source r

end ScopeMonitor

/-- `ProcessMonitor`, its threads by their `tid`. -/
structure ProcessMonitor (ρ : Type) where
  threads : TreeMap Int64 ScopeMonitor
  resolvers : Resolvers ρ

/-- What happens to a monitor.  `constructed` tells whether the monitor of the
thread could be made, `now` is what `time::now()` returns. -/
inductive MonitorAction where
  | insertProcess (parent child : Process) (constructed : Bool)
      (now : TimePoint)
  | insertThread (child : Thread) (constructed : Bool) (now : TimePoint)
  | handle (thread : Thread) (record : Record)
  | exitThread (thread : Thread) (now : TimePoint)

namespace ProcessMonitor

/-- The constructor. -/
def init : ProcessMonitor ρ := ⟨∅, ∅⟩

def insertThread (config : MonitorConfig) (child : Thread)
    (constructed : Bool) (now : TimePoint) (m : ProcessMonitor ρ) :
    Except Failure (ProcessMonitor ρ) :=
  if !config.hasThreadMonitors || !constructed then .ok m
  else if m.threads.contains child.tid then
    .error (.assertion "inserted.second")
  else
    .ok { m with
      threads :=
        m.threads.insert child.tid (.init config (.thread child) now) }

def insertProcess (config : MonitorConfig) (parent child : Process)
    (constructed : Bool) (now : TimePoint) (m : ProcessMonitor ρ) :
    Except Failure (ProcessMonitor ρ) :=
  match m.insertThread config ⟨child.pid⟩ constructed now with
  | .error failure => .error failure
  | .ok m => .ok { m with resolvers := m.resolvers.fork parent child }

/-- The sample writer of a thread handles a record; a thread that has none
cannot. -/
def handle (thread : Thread) (record : Record) (m : ProcessMonitor ρ) :
    Except Failure (ProcessMonitor ρ) :=
  match m.threads[thread.tid]? with
  | some ⟨some writer⟩ =>
      match writer.handle record with
      | .error failure => .error failure
      | .ok writer =>
          .ok { m with threads := m.threads.insert thread.tid ⟨some writer⟩ }
  | _ => .error .invalidAccess

def exitThread (source : ResolverSource ρ) (thread : Thread) (now : TimePoint)
    (m : ProcessMonitor ρ) : Except Failure (ProcessMonitor ρ) :=
  match m.threads[thread.tid]? with
  | none => .ok m
  | some monitor =>
      match monitor.close source now m.resolvers with
      | .error failure => .error failure
      | .ok resolvers => .ok ⟨m.threads.erase thread.tid, resolvers⟩

/-- The state after an action. -/
def step (config : MonitorConfig) (source : ResolverSource ρ)
    (m : ProcessMonitor ρ) :
    MonitorAction → Except Failure (ProcessMonitor ρ)
  | .insertProcess parent child constructed now =>
      m.insertProcess config parent child constructed now
  | .insertThread child constructed now =>
      m.insertThread config child constructed now
  | .handle thread record => m.handle thread record
  | .exitThread thread now => m.exitThread source thread now

/-- The destructor: all threads end, in the order of their `tid`. -/
def destroy (source : ResolverSource ρ) (now : Int64 → TimePoint)
    (m : ProcessMonitor ρ) : Except Failure (Resolvers ρ) :=
  run (fun r thread => thread.2.close source (now thread.1) r) m.resolvers
    m.threads.toList

end ProcessMonitor

end Lo2s
