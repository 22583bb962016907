import Lo2s.GpuMonitor
import Lo2s.RingbufContent

/-!
# From the accelerator to its monitor

The injection library gives every kernel name a number, which it defines in the
ring buffer before it reports the first kernel of that name.  The monitor takes
the events out at any time in between.
-/

namespace Lo2s

open Foundation

/-- A C string, for which a definition can be reserved. -/
structure KernelName where
  bytes : List UInt8
  noZero : 0 ∉ bytes
  representable : 25 + bytes.length < 2 ^ 64
  deriving DecidableEq

/-- `CUpti_ActivityKernel6`, as far as `bufferCompleted` reads it. -/
structure ActivityKernel where
  start : UInt64
  end_ : UInt64
  name : KernelName
  deriving DecidableEq

/-- What `bufferCompleted` is about to do for a kernel: define its name, commit
the definition, report the kernel, and commit that. -/
inductive GpuPhase where
  | idle
  | defining (kernel : ActivityKernel)
  | defined (kernel : ActivityKernel) (cctx : UInt64)
  | launching (kernel : ActivityKernel) (cctx : UInt64)
  | launched (kernel : ActivityKernel) (cctx : UInt64)
  deriving DecidableEq

/-- What has been committed. -/
inductive GpuCommit where
  | kernelDef (kernelId : UInt64) (name : KernelName)
  | kernel (kernel : ActivityKernel) (kernelId : UInt64)
  deriving DecidableEq

/-- `gpu::RingbufWriter` in `bufferCompleted`, the monitor at the other end of
its ring buffer, and what has been committed. -/
structure GpuSession where
  ring : RingbufSession
  cctxs : FiniteMap KernelName UInt64
  nextCctxRef : UInt64
  phase : GpuPhase
  monitor : GpuMonitor
  commits : List GpuCommit

/-- What can happen next: the accelerator reports a kernel, `bufferCompleted`
goes on, or the monitor takes an event. -/
inductive GpuInput where
  | report (kernel : ActivityKernel)
  | advance
  | monitor

namespace GpuSession

/-- A session with an empty ring buffer. -/
def start (size : BufferSize) (memory : Circular UInt8) (monitor : GpuMonitor) :
    GpuSession :=
  ⟨.start size memory, ∅, 0, .idle, monitor, []⟩

/-- `sizeof(struct gpu::kernel_def)` and `sizeof(struct gpu::kernel)`. -/
def sizeofKernelDef : UInt64 := 25

def sizeofKernel : UInt64 := 40

/-- `func.size()`. -/
def nameSize (name : KernelName) : UInt64 := UInt64.ofNat name.bytes.length

/-- `kernel_def` up to its commit, for a name that `cctxs_` does not have. -/
def defineName (kernel : ActivityKernel) (s : GpuSession) :
    Except Failure GpuSession := do
  let ring ← s.ring.reserve sizeofKernelDef (nameSize kernel.name)
  -- `reserve` has returned null.
  if ring.reservedSize = 0 then
    return { s with phase := .launching kernel 0 }
  else
    let ring ← ring.storeField 24 kernel.name.bytes
    let ring ← ring.storeField 8 (word 1)
    let ring ← ring.storeField 16 (word s.nextCctxRef)
    return { s with
      ring := ring
      cctxs := s.cctxs.insert kernel.name s.nextCctxRef
      nextCctxRef := s.nextCctxRef + 1
      phase := .defined kernel s.nextCctxRef }

def kernelDef (kernel : ActivityKernel) (s : GpuSession) :
    Except Failure GpuSession :=
  match s.cctxs.lookup kernel.name with
  | some cctx => .ok { s with phase := .launching kernel cctx }
  | none => s.defineName kernel

/-- `kernel` up to its commit; nobody looks at what it returns. -/
def launch (kernel : ActivityKernel) (cctx : UInt64) (s : GpuSession) :
    Except Failure GpuSession := do
  let ring ← s.ring.reserve sizeofKernel 0
  if ring.reservedSize = 0 then return { s with phase := .idle }
  else
    let ring ← ring.storeField 8 (word 0)
    let ring ← ring.storeField 16 (word kernel.start)
    let ring ← ring.storeField 24 (word kernel.end_)
    let ring ← ring.storeField 32 (word cctx)
    return { s with
      ring := ring
      phase := .launched kernel cctx }

def commit (committed : GpuCommit) (phase : GpuPhase) (s : GpuSession) :
    Except Failure GpuSession := do
  let ring ← s.ring.commit
  return { s with
    ring := ring
    phase := phase
    commits := s.commits ++ [committed] }

/-- The next step of `bufferCompleted`. -/
def advance (s : GpuSession) : Except Failure GpuSession :=
  match s.phase with
  | .idle => .ok s
  | .defining kernel => s.kernelDef kernel
  | .defined kernel cctx =>
      s.commit (.kernelDef cctx kernel.name) (.launching kernel cctx)
  | .launching kernel cctx => s.launch kernel cctx
  | .launched kernel cctx => s.commit (.kernel kernel cctx) .idle

def getTopEventType (rb : ShmRingbuf) : Except Failure UInt64 :=
  match rb.tail eventHeaderSize with
  | .error failure => .error failure
  | .ok none => .error (.runtimeError
      "get_top_event_type called without checking empty first!")
  | .ok (some header) => rb.loadSize (header.toNat + 8)

/-- `get`, through whose result fields are read. -/
def getEvent (rb : ShmRingbuf) : Except Failure Nat :=
  match RingbufReader.get rb with
  | .error failure => .error failure
  | .ok none => .error .invalidAccess
  | .ok (some event) => .ok event.toNat

/-- The event that `monitor` finds. -/
def readEvent (rb : ShmRingbuf) : Except Failure GpuEvent := do
  let type ← getTopEventType rb
  if type = 0 then
    let kernel ← getEvent rb
    let startTp ← rb.loadSize (kernel + 16)
    let endTp ← rb.loadSize (kernel + 24)
    let kernelId ← rb.loadSize (kernel + 32)
    return .kernel startTp endTp kernelId
  else if type = 1 then
    let kernel ← getEvent rb
    let kernelId ← rb.loadSize (kernel + 16)
    let function ← rb.loadString (kernel + 24)
    return .kernelDef kernelId function
  else return .other

/-- An iteration of the loop in `monitor`.  The writer does not touch the event
at the tail, so it is one step. -/
def monitorStep (s : GpuSession) : Except Failure GpuSession := do
  if ← RingbufReader.empty s.ring.rb then return s
  else
    let event ← readEvent s.ring.rb
    let monitor ← s.monitor.handle event
    let ring ← s.ring.pop
    return { s with
      ring := ring
      monitor := monitor }

/-- The session after an input. -/
def step (s : GpuSession) : GpuInput → Except Failure GpuSession
  | .report kernel =>
      match s.phase with
      | .idle => .ok { s with phase := .defining kernel }
      | _ => .ok s
  | .advance => s.advance
  | .monitor => s.monitorStep

end GpuSession

end Lo2s
