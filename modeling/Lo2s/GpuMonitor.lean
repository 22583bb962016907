import Lo2s.Foundation.FiniteMap
import Lo2s.LocalCctxTree
import Lo2s.MemoryMap

/-!
# The monitor of a GPU

`GPUMonitor` takes the events of an accelerator out of a ring buffer.  It writes
an enter and a leave event for each kernel, within the context of the process,
and collects the names of the kernels.
-/

namespace Lo2s

open Foundation

/-- An event of `gpu::EventType` as it is read from the ring buffer, or an event
of another type. -/
inductive GpuEvent where
  | kernel (startTp endTp kernelId : UInt64)
  | kernelDef (kernelId : UInt64) (function : List UInt8)
  | other
  deriving DecidableEq, Repr

/-- `GPUMonitor`, without the ring buffer; `unwritten` is what the storage of a
context holds behind its first word. -/
structure GpuMonitor where
  process : Process
  timeConverter : Converter
  lastTp : TimePoint
  localCctxTree : LocalCctxTree
  functions : FiniteMap Address (List UInt8)
  highestFunc : UInt64
  unwritten : UnwrittenWords

namespace GpuMonitor

/-- The constructor. -/
def init (process : Process) (timeConverter : Converter)
    (interruptGenerator : Nat) (unwritten : UnwrittenWords) : GpuMonitor :=
  ⟨process, timeConverter, 0, .init interruptGenerator, ∅, 0, unwritten⟩

def cctxLevelProcess : Nat := 1

def cctxLevelKernel : Nat := 2

/-- The branch of `monitor` for a kernel. -/
def handleKernel (startTp endTp kernelId : UInt64) (g : GpuMonitor) :
    Except Failure GpuMonitor := do
  let startTp := g.timeConverter.convert startTp
  let endTp := g.timeConverter.convert endTp
  let tree ← g.localCctxTree.cctxEnter startTp cctxLevelProcess
    [.process g.process g.unwritten, .gpuKernel kernelId g.unwritten]
  return { g with
    localCctxTree := tree.cctxLeave endTp cctxLevelKernel
    lastTp := endTp }

/-- The branch of `monitor` for a definition; `emplace` keeps a name that is
there already. -/
def handleKernelDef (kernelId : UInt64) (function : List UInt8)
    (g : GpuMonitor) : GpuMonitor :=
  { g with
    functions := g.functions.insertIfNew kernelId function
    highestFunc := max kernelId g.highestFunc }

/-- An iteration of the loop in `monitor`. -/
def handle (g : GpuMonitor) : GpuEvent → Except Failure GpuMonitor
  | .kernel startTp endTp kernelId => g.handleKernel startTp endTp kernelId
  | .kernelDef kernelId function => .ok (g.handleKernelDef kernelId function)
  | .other => .ok g

def finalizeThread (g : GpuMonitor) : GpuMonitor :=
  { g with
    localCctxTree :=
      (g.localCctxTree.cctxLeave g.lastTp cctxLevelProcess).finalize }

/-- `ManualFunctionResolver::lookup_line_info` on `functions_`, none for an
unknown function. -/
def lookupLineInfo (address : Address) (g : GpuMonitor) :
    Option (List UInt8) :=
  g.functions.lookup address

end GpuMonitor

end Lo2s
