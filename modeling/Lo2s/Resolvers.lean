import Lo2s.Foundation.Run
import Lo2s.MemoryMap
import Lo2s.SampleWriter
import Mathlib.Tactic.Common

/-!
# Function resolvers

`Resolvers` keeps one memory map for each process.  A forked process starts
with a copy of the map of its parent; the mappings a sample writer has cached
are emplaced later.
-/

namespace Lo2s

open Std Foundation

/-- `nitro::lang::starts_with`, of a library that is not in the repository. -/
def startsWith (text start : String) : Bool :=
  start.toList.isPrefixOf text.toList

def knownNonExecutable (filename : String) : Bool :=
  filename.isEmpty || filename == "//anon" || filename == "/dev/zero" ||
    filename == "/anon_hugepage" || startsWith filename "/memfd" ||
    startsWith filename "/SYSV" || startsWith filename "[" ||
    startsWith filename "/dev"

/-- Where resolvers come from; `ρ` stands for
`std::shared_ptr<FunctionResolver>`.  `kallsyms` is `Kallsyms::cache()`,
`perfMap` the perf map of a process with its mapping if it has entries, or the
exception its file causes, and `binary` the cached resolver of a file. -/
structure ResolverSource (ρ : Type) where
  kallsyms : ρ
  kallsymsStart : Address
  perfMap : Process → Except Failure (Option (Mapping × ρ))
  binary : String → ρ

variable {ρ : Type}

def ResolverSource.functionResolverFor (source : ResolverSource ρ)
    (filename : String) : Option ρ :=
  if knownNonExecutable filename then none else some (source.binary filename)

/-- The constructor of `ProcessFunctionMap`. -/
def ResolverSource.processFunctionMap (source : ResolverSource ρ)
    (process : Process) : Except Failure (MemoryMap ρ) := do
  let range ← Range.ofBounds source.kallsymsStart .max
  let map ← MemoryMap.emplace ⟨range, 0⟩ source.kallsyms []
  match ← source.perfMap process with
  | none => .ok map
  | some (mapping, perfMap) => MemoryMap.emplace mapping perfMap map

/-- A `std::exception`, unlike an abort. -/
def Failure.isException : Failure → Bool
  | .runtimeError _ => true
  | .outOfRange => true
  | .assertion _ => false
  | .invalidAccess => false

/-- `Resolvers::function_resolvers`, by the `pid` of the process. -/
abbrev Resolvers (ρ : Type) := TreeMap Int64 (MemoryMap ρ)

namespace Resolvers

def fork (parent process : Process) (r : Resolvers ρ) : Resolvers ρ :=
  match r[parent.pid]? with
  | none => r
  | some map => r.insertIfNew process.pid map

/-- The map `function_resolvers.at(p)` refers to after
`function_resolvers.emplace(p, p)`. -/
def mapOf (source : ResolverSource ρ) (p : Process) (r : Resolvers ρ) :
    Except Failure (MemoryMap ρ) :=
  match r[p.pid]? with
  | some map => .ok map
  | none => source.processFunctionMap p

end Resolvers

namespace RecordMmap

/-- The range of the record, unless its end wraps around. -/
def range (mmapEvent : RecordMmap) : Except Failure Range :=
  Range.ofBounds mmapEvent.addr (mmapEvent.addr + mmapEvent.len)

def process (mmapEvent : RecordMmap) : Process :=
  SampleWriter.processOf mmapEvent.pid

end RecordMmap

namespace Resolvers

/-- One round of the loop of `Writer::emplace_resolvers`; an exception is
logged.  The last `emplace` never throws on maps that are in order. -/
def emplaceResolver (source : ResolverSource ρ) (r : Resolvers ρ)
    (mmapEvent : RecordMmap) : Except Failure (Resolvers ρ) :=
  match mmapEvent.range with
  | .error _ => .ok r
  | .ok range =>
      match r.mapOf source mmapEvent.process with
      | .error failure =>
          if failure.isException then .ok r else .error failure
      | .ok map =>
          match source.functionResolverFor mmapEvent.filename with
          | none => .ok (r.insertIfNew mmapEvent.process.pid map)
          | some fr =>
              match map.emplace ⟨range, mmapEvent.pgoff⟩ fr with
              | .error failure => .error failure
              | .ok map => .ok (r.insert mmapEvent.process.pid map)

end Resolvers

/-- `Writer::emplace_resolvers`. -/
def SampleWriter.emplaceResolvers (source : ResolverSource ρ)
    (r : Resolvers ρ) (w : SampleWriter) : Except Failure (Resolvers ρ) :=
  run (Resolvers.emplaceResolver source) r w.cachedMmapEvents

end Lo2s
