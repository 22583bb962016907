import Lo2s.LocationMeaning
import Lo2s.SampleMeaning
import Lo2s.SyscallWriter

/-!
# What a trace tells

The locations of a trace have clients of different kinds, each of which fills
the local tree of its location.  At the end of the measurement the trees are
merged, and every event of every location leads to the contexts that the machine
of its client has for it.
-/

namespace Lo2s

open Foundation LocalCctxTree

/-- A client of one location, with everything it is given until it ends: a
sample writer, the monitor of an accelerator, a thread of an OpenMP monitor or a
system call writer. -/
inductive TraceClient where
  | samples (scope : ExecutionScope) (trace : Trace) (recordCallgraph : Bool)
      (timeConverter : Converter) (unwritten : UnwrittenWords)
      (start now : TimePoint) (records : List Record)
  | kernels (process : Process) (timeConverter : Converter)
      (unwritten : UnwrittenWords) (events : List GpuEvent)
  | regions (process : Process) (timeConverter : Converter)
      (unwritten : UnwrittenWords) (events : List OmptEvent) (tid : UInt64)
  | systemCalls (sysEnterId : UInt64) (timeConverter : Converter)
      (unwritten : UnwrittenWords) (calls : List SyscallSample)

namespace TraceClient

/-- The tree of the location when the client has ended. -/
def tree (interruptGenerator : Nat) :
    TraceClient → Except Failure LocalCctxTree
  | samples scope trace recordCallgraph timeConverter unwritten start now
      records => do
      let w ← (SampleWriter.init scope trace recordCallgraph timeConverter
        unwritten interruptGenerator start).lifetime records now
      return w.localCctxTree
  | kernels process timeConverter unwritten events => do
      let g ← run GpuMonitor.handle
        (.init process timeConverter interruptGenerator unwritten) events
      return g.finalizeThread.localCctxTree
  | regions process timeConverter unwritten events tid => do
      let m ← run OpenmpMonitor.handle
        (.init process timeConverter interruptGenerator unwritten) events
      match m.finalizeThread.localCctxTrees.lookup tid with
      | some tree => return tree
      | none => .error .outOfRange
  | systemCalls sysEnterId timeConverter unwritten calls => do
      let w ← run SyscallWriter.handle
        (.init sysEnterId timeConverter unwritten interruptGenerator) calls
      return w.destroy.localCctxTree

/-- What its machine tells. -/
def meaning (interruptGenerator : Nat) : TraceClient → List PathEvent
  | samples scope trace recordCallgraph timeConverter unwritten start now
      records =>
      (SampleWriter.init scope trace recordCallgraph timeConverter unwritten
        interruptGenerator start).samples records start now
  | kernels process timeConverter unwritten events =>
      (GpuMonitor.init process timeConverter interruptGenerator
        unwritten).kernelEvents false 0 events
  | regions process timeConverter unwritten events tid =>
      (OpenmpMonitor.init process timeConverter interruptGenerator
        unwritten).regions (ofThread tid events)
  | systemCalls sysEnterId timeConverter unwritten calls =>
      (SyscallWriter.init sysEnterId timeConverter unwritten
        interruptGenerator).calls none 0 calls

/-- A sample writer is that of a thread or a CPU and gets the context switches
of its kind; an OpenMP thread has had an event. -/
def Suits (interruptGenerator : Nat) : TraceClient → Prop
  | samples scope trace recordCallgraph timeConverter unwritten start _
      records =>
      SampleWriter.Monitored scope ∧ ∀ record ∈ records,
        (SampleWriter.init scope trace recordCallgraph timeConverter unwritten
          interruptGenerator start).Suits record
  | regions _ _ _ events tid => ofThread tid events ≠ []
  | _ => True

theorem exists_location {interruptGenerator : Nat} {client : TraceClient}
    (suits : client.Suits interruptGenerator) :
    ∃ location : Location,
      client.tree interruptGenerator = .ok location.tree ∧
        location.meaning = client.meaning interruptGenerator := by
  cases client with
  | samples scope trace recordCallgraph timeConverter unwritten start now
      records =>
      obtain ⟨final, lived, location, closed, meaning⟩ :=
        SampleWriter.exists_location scope suits.1 trace recordCallgraph
          timeConverter unwritten interruptGenerator start now records suits.2
      refine ⟨location, ?_, meaning⟩
      rw [closed]
      exact bind_eq_ok_iff.mpr ⟨final, lived, rfl⟩
  | kernels process timeConverter unwritten events =>
      obtain ⟨final, location, ran, closed, meaning⟩ :=
        GpuMonitor.exists_location process timeConverter interruptGenerator
          unwritten events
      refine ⟨location, ?_, meaning⟩
      rw [closed]
      exact bind_eq_ok_iff.mpr ⟨final, ran, rfl⟩
  | regions process timeConverter unwritten events tid =>
      obtain ⟨final, ran, threads⟩ :=
        OpenmpMonitor.exists_location process timeConverter interruptGenerator
          unwritten events
      obtain ⟨location, closed, meaning⟩ := threads tid suits
      refine ⟨location, bind_eq_ok_iff.mpr ⟨final, ran, ?_⟩, meaning⟩
      rw [closed]
      rfl
  | systemCalls sysEnterId timeConverter unwritten calls =>
      let w := SyscallWriter.init sysEnterId timeConverter unwritten
        interruptGenerator
      obtain ⟨final, location, ran, closed, meaning⟩ :=
        w.exists_location ⟨interruptGenerator, rfl⟩ calls
      refine ⟨location, ?_, meaning⟩
      rw [closed]
      exact bind_eq_ok_iff.mpr ⟨final, ran, rfl⟩

theorem exists_locations {interruptGenerator : Nat}
    {clients : List TraceClient}
    (suits : ∀ client ∈ clients, client.Suits interruptGenerator) :
    ∃ locations : List Location,
      clients.mapM (tree interruptGenerator) =
        .ok (locations.map Location.tree) ∧
      locations.map Location.meaning =
        clients.map (meaning interruptGenerator) := by
  induction clients with
  | nil => exact ⟨[], rfl, rfl⟩
  | cons client clients induction =>
      obtain ⟨location, made, means⟩ :=
        exists_location (suits client List.mem_cons_self)
      obtain ⟨locations, allMade, allMean⟩ := induction fun other member =>
        suits other (List.mem_cons_of_mem _ member)
      refine ⟨location :: locations, ?_, ?_⟩
      · rw [List.mapM_cons, made, allMade]
        rfl
      · rw [List.map_cons, List.map_cons, means, allMean]

end TraceClient

/-- The calling-context events of a location. -/
def LocalCctxTree.cctxEvents (t : LocalCctxTree) : List TraceEvent :=
  t.writer.filter fun event => event.cctxRef?.isSome

end Lo2s
