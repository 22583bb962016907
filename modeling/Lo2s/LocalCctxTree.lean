import Lo2s.CallingContext
import Lo2s.Foundation.ForestPath
import Lo2s.TraceEvent

/-!
# The local calling-context tree

`LocalCctxTree` keeps the calling contexts of one location as a tree, the
current call stack as pointers into it, and writes an event for every context
it enters, leaves or samples.

A pointer to a tree node is the path to it, together with the reference the
node was created with; nodes are never removed and their references never
change, so a pointer stays valid while the tree grows.
-/

namespace Lo2s

open Foundation

/-- A `LocalCctxMap::value_type*`. -/
structure NodePtr where
  path : List EnteredContext
  ref : Nat

namespace NodePtr

/-- The pointer to `tree`, whose reference is the constructor's zero. -/
def root : NodePtr := ⟨[], 0⟩

/-- `first` of the node, `none` for the root. -/
def first (node : NodePtr) : Option EnteredContext := node.path.getLast?

end NodePtr

/-- `LocalCctxTree`.  `cur` is `cur_` with its back at the head of the list. -/
structure LocalCctxTree where
  tree : Node EnteredContext Nat
  cur : List NodePtr
  refCount : Nat
  nextCctxRef : Nat
  writer : List TraceEvent
  interruptGenerator : Nat

namespace LocalCctxTree

/-- The constructor. -/
def init (interruptGenerator : Nat) : LocalCctxTree :=
  { tree := ⟨0, .nil⟩
    cur := [.root]
    refCount := 0
    nextCctxRef := 0
    writer := []
    interruptGenerator := interruptGenerator }

def finalize (t : LocalCctxTree) : LocalCctxTree :=
  { t with refCount := t.nextCctxRef }

def numCctx (t : LocalCctxTree) : Nat := t.refCount

def curLevel (t : LocalCctxTree) : Nat := t.cur.length - 1

/-- `cur_[level]`. -/
def entryAt (t : LocalCctxTree) (level : Nat) : Option NodePtr :=
  t.cur.reverse[level]?

/-- `writer_.write_*` and `writer_ <<`. -/
def write (event : TraceEvent) (t : LocalCctxTree) : LocalCctxTree :=
  { t with writer := t.writer ++ [event] }

/-- `create_cctx_node`: the child of `node` for `cctx`, made if need be. -/
def createCctxNode (cctx : EnteredContext) (node : NodePtr)
    (t : LocalCctxTree) : LocalCctxTree × NodePtr :=
  let ret := t.tree.emplaceAt cctx t.nextCctxRef node.path
  ({ t with
      tree := ret.1
      nextCctxRef := if ret.2.2 then t.nextCctxRef + 1 else t.nextCctxRef },
    ⟨node.path ++ [ret.2.1.1], ret.2.1.2.value⟩)

/-- The loop of `cctx_leave`; `below.length` is `cur_level()` while `node` is
on top. -/
def leaveLoop (tp : TimePoint) (level : Nat) :
    List NodePtr → List NodePtr × List TraceEvent
  | [] => ([], [])
  | node :: below =>
      if 0 < level ∧ level ≤ below.length then
        let rest := leaveLoop tp level below
        (rest.1, .callingContextLeave tp node.ref :: rest.2)
      else (node :: below, [])

/-- `cctx_leave(tp, level)`; the source returns the `cur_level()` after it. -/
def cctxLeave (tp : TimePoint) (level : Nat) (t : LocalCctxTree) :
    LocalCctxTree :=
  { t with
    cur := (leaveLoop tp level t.cur).1
    writer := t.writer ++ (leaveLoop tp level t.cur).2 }

/-- `cctx_leave(tp)`. -/
def cctxLeaveTop (tp : TimePoint) (t : LocalCctxTree) : LocalCctxTree :=
  t.cctxLeave tp t.curLevel

/-- The two statements that push a context: create its node below the top of
the stack and write the enter event. -/
def pushCctx (tp : TimePoint) (cctx : EnteredContext) (t : LocalCctxTree) :
    Except Failure LocalCctxTree :=
  match t.cur with
  | [] => .error .invalidAccess
  | back :: _ =>
      let (t, node) := t.createCctxNode cctx back
      .ok ({ t with cur := node :: t.cur }.write
        (.callingContextEnter tp node.ref 2))

def handleEnterCctxNode (tp : TimePoint) (level : Nat) (cctx : EnteredContext)
    (t : LocalCctxTree) : Except Failure LocalCctxTree :=
  if level = 0 then .error (.assertion "level > 0")
  else if t.curLevel + 1 < level then
    .error (.assertion "level <= cur_level() + 1")
  else if level = t.curLevel + 1 then t.pushCctx tp cctx
  else
    match (t.entryAt level).bind NodePtr.first with
    | none => .error .invalidAccess
    | some old =>
        match old.context.ne cctx.context with
        | .error failure => .error failure
        | .ok true => (t.cctxLeave tp level).pushCctx tp cctx
        | .ok false => .ok t

/-- `cctx_enter(tp, level, ctx, ctxs...)`; the source has no call with an empty
list. -/
def cctxEnter (tp : TimePoint) : Nat → List EnteredContext → LocalCctxTree →
    Except Failure LocalCctxTree
  | _, [], t => .ok t
  | level, cctx :: ctxs, t =>
      match t.handleEnterCctxNode tp level cctx with
      | .error failure => .error failure
      | .ok t => t.cctxEnter tp (level + 1) ctxs

/-- `PERF_CONTEXT_KERNEL` and `PERF_CONTEXT_USER`. -/
def perfContextKernel : UInt64 := 0 - 128

def perfContextUser : UInt64 := 0 - 512

/-- The pointer tells in which context those behind it are. -/
def IsMarker (ip : UInt64) : Prop :=
  ip = perfContextKernel ∨ ip = perfContextUser

instance (ip : UInt64) : Decidable (IsMarker ip) :=
  inferInstanceAs (Decidable (_ ∨ _))

/-- `ips[i]`, of an array that has `size` pointers. -/
def readIp {size : Nat} (ips : Fin size → UInt64) (i : Nat) :
    Except Failure UInt64 :=
  if inside : i < size then .ok (ips ⟨i, inside⟩) else .error .invalidAccess

/-- The loop of `cctx_sample` from index `i` down: the tree with the nodes of
the chain, and the last node reached. -/
def sampleLoop {size : Nat} (ips : Fin size → UInt64) (rest : UnwrittenWords) :
    Nat → NodePtr → LocalCctxTree → Except Failure (LocalCctxTree × NodePtr)
  | 0, node, t => .ok (t, node)
  | i + 1, node, t =>
      match readIp ips (i + 1) with
      | .error failure => .error failure
      | .ok ip =>
          if IsMarker ip then
            if i + 1 ≤ 1 then .ok (t, node) else sampleLoop ips rest i node t
          else
            let (t, node) := t.createCctxNode (.sample ip rest) node
            sampleLoop ips rest i node t

/-- `cctx_sample(tp, num_ips, ips)`.  With `num_ips` zero the index starts at
the largest `uint64_t`. -/
def cctxSample (tp : TimePoint) (numIps : UInt64)
    (ips : Fin numIps.toNat → UInt64) (rest : UnwrittenWords)
    (t : LocalCctxTree) : Except Failure LocalCctxTree :=
  match t.cur with
  | [] => .error .invalidAccess
  | back :: _ =>
      match sampleLoop ips rest (numIps - 1).toNat back t with
      | .error failure => .error failure
      | .ok (t, node) =>
          .ok (t.write
            (.callingContextSample tp node.ref numIps t.interruptGenerator))

/-- `cctx_sample(tp, ip)`. -/
def cctxSampleIp (tp : TimePoint) (ip : UInt64) (rest : UnwrittenWords)
    (t : LocalCctxTree) : Except Failure LocalCctxTree :=
  match t.cur with
  | [] => .error .invalidAccess
  | back :: _ =>
      let (t, node) := t.createCctxNode (.sample ip rest) back
      .ok (t.write (.callingContextSample tp node.ref 2 t.interruptGenerator))

end LocalCctxTree

/-- A call on a local tree. -/
inductive CctxCall where
  | enter (tp : TimePoint) (level : Nat) (ctx : EnteredContext)
      (ctxs : List EnteredContext)
  | leave (tp : TimePoint) (level : Nat)
  | sample (tp : TimePoint) (numIps : UInt64)
      (ips : Fin numIps.toNat → UInt64) (rest : UnwrittenWords)
  | sampleIp (tp : TimePoint) (ip : UInt64) (rest : UnwrittenWords)

/-- The state after a call. -/
def LocalCctxTree.call (t : LocalCctxTree) :
    CctxCall → Except Failure LocalCctxTree
  | .enter tp level ctx ctxs => t.cctxEnter tp level (ctx :: ctxs)
  | .leave tp level => .ok (t.cctxLeave tp level)
  | .sample tp numIps ips rest => t.cctxSample tp numIps ips rest
  | .sampleIp tp ip rest => t.cctxSampleIp tp ip rest

end Lo2s
