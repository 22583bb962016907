import Lo2s.Foundation.FiniteMap
import Lo2s.Foundation.Run
import Lo2s.LocalCctxTree

/-!
# The OpenMP monitor

`OpenMPMonitor` takes the events of the OpenMP tool out of a ring buffer.  Each
thread has a tree of its own, made when its first event arrives, in which the
process is entered below all regions.
-/

namespace Lo2s

open Foundation

/-- An event of `ompt::EventType` as it is read from the ring buffer, or an
event of another type. -/
inductive OmptEvent where
  | enter (tp : UInt64) (cctx : OMPTCctx)
  | exit (tp : UInt64) (cctx : OMPTCctx)
  | other
  deriving DecidableEq, Repr

/-- `OpenMPMonitor`, without the ring buffer; `interruptGenerator` is that of
the trace the trees are made in, `unwritten` what the storage of a context
holds behind its first word. -/
structure OpenmpMonitor where
  process : Process
  timeConverter : Converter
  localCctxTrees : FiniteMap UInt64 LocalCctxTree
  lastTp : FiniteMap UInt64 TimePoint
  interruptGenerator : Nat
  unwritten : UnwrittenWords

namespace OpenmpMonitor

/-- The constructor. -/
def init (process : Process) (timeConverter : Converter)
    (interruptGenerator : Nat) (unwritten : UnwrittenWords) : OpenmpMonitor :=
  ⟨process, timeConverter, ∅, ∅, interruptGenerator, unwritten⟩

def cctxLevelProcess : Nat := 1

def createThreadWriter (tp : TimePoint) (thread : UInt64) (m : OpenmpMonitor) :
    Except Failure OpenmpMonitor := do
  let tree ← (LocalCctxTree.init m.interruptGenerator).cctxEnter tp
    cctxLevelProcess [.process m.process m.unwritten]
  return { m with localCctxTrees := m.localCctxTrees.insert thread tree }

/-- What both branches of `monitor` start with, and the tree `at` finds. -/
def threadTree (tp : TimePoint) (thread : UInt64) (m : OpenmpMonitor) :
    Except Failure (LocalCctxTree × OpenmpMonitor) := do
  let m ← if thread ∈ m.localCctxTrees then .ok m
    else m.createThreadWriter tp thread
  match m.localCctxTrees.lookup thread with
  | none => .error .outOfRange
  | some tree => .ok (tree, m)

/-- The end of both branches: the tree has changed in place. -/
def update (tp : TimePoint) (thread : UInt64) (tree : LocalCctxTree)
    (m : OpenmpMonitor) : OpenmpMonitor :=
  { m with
    localCctxTrees := m.localCctxTrees.insert thread tree
    lastTp := m.lastTp.insert thread tp }

/-- The branch of `monitor` for `OMPT_ENTER`. -/
def handleEnter (tp : TimePoint) (cctx : OMPTCctx) (m : OpenmpMonitor) :
    Except Failure OpenmpMonitor := do
  let thread := cctx.tid.toUInt64
  let (tree, m) ← m.threadTree tp thread
  let tree ← tree.cctxEnter tp (tree.curLevel + 1) [.openmp cctx]
  return m.update tp thread tree

/-- The branch of `monitor` for `OMPT_EXIT`; of the context only the thread is
used. -/
def handleExit (tp : TimePoint) (cctx : OMPTCctx) (m : OpenmpMonitor) :
    Except Failure OpenmpMonitor := do
  let thread := cctx.tid.toUInt64
  let (tree, m) ← m.threadTree tp thread
  return m.update tp thread
    (if tree.curLevel ≠ cctxLevelProcess then tree.cctxLeaveTop tp else tree)

/-- An iteration of the loop in `monitor`. -/
def handle (m : OpenmpMonitor) : OmptEvent → Except Failure OpenmpMonitor
  | .enter tp cctx => m.handleEnter (m.timeConverter.convert tp) cctx
  | .exit tp cctx => m.handleExit (m.timeConverter.convert tp) cctx
  | .other => .ok m

/-- `finalize_thread`; a missing entry of `last_tp_` would be made with the
epoch. -/
def finalizeThread (m : OpenmpMonitor) : OpenmpMonitor :=
  { m with
    localCctxTrees := m.localCctxTrees.mapValues fun thread tree =>
      (tree.cctxLeave ((m.lastTp.lookup thread).getD 0)
        cctxLevelProcess).finalize }

end OpenmpMonitor

end Lo2s
