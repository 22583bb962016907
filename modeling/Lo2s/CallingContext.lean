import Lo2s.Foundation.KeyOrder
import Lo2s.Types
import Mathlib.Data.Int.Cast.Lemmas
import Mathlib.Data.Prod.Lex

/-!
# Calling contexts

A `CallingContext` is a tag and a union of seven members.  Every member is made
of 64-bit words and starts at offset zero, so the union is kept as its four
words: a member of any context can be read, as the comparison operators of the
source do.  Words behind a short member hold whatever the storage held before.
-/

namespace Lo2s

open Foundation

/-- `CallingContextType`, in declaration order. -/
inductive CallingContextType where
  | root
  | process
  | thread
  | sampleAddr
  | gpuKernel
  | syscall
  | openmp
  deriving DecidableEq, Repr

/-- The underlying integer of the enumeration. -/
def CallingContextType.toInt : CallingContextType → ℤ
  | .root => 0
  | .process => 1
  | .thread => 2
  | .sampleAddr => 3
  | .gpuKernel => 4
  | .syscall => 5
  | .openmp => 6

theorem CallingContextType.toInt_injective {left right : CallingContextType}
    (equality : left.toInt = right.toInt) : left = right := by
  cases left <;> cases right <;> first | rfl | simp [toInt] at equality

/-- `ompt::OMPTCctx`; `type` is an enumeration over `uint64_t`. -/
structure OMPTCctx where
  type : UInt64
  tid : Int64
  addr : UInt64
  numThreads : UInt64
  deriving DecidableEq, Repr

namespace OMPTCctx

/-- `operator<`, which does not look at the thread. -/
def lt (lhs rhs : OMPTCctx) : Bool :=
  if lhs.type = rhs.type then
    if lhs.numThreads = rhs.numThreads then lhs.addr < rhs.addr
    else lhs.numThreads < rhs.numThreads
  else lhs.type < rhs.type

/-- `operator==`, which does not look at the thread either. -/
def eq (lhs rhs : OMPTCctx) : Bool :=
  lhs.type = rhs.type ∧ lhs.numThreads = rhs.numThreads ∧ lhs.addr = rhs.addr

/-- `operator!=`. -/
def ne (lhs rhs : OMPTCctx) : Bool :=
  lhs.type ≠ rhs.type ∨ lhs.numThreads ≠ rhs.numThreads ∨ lhs.addr ≠ rhs.addr

/-- The three compared fields, most significant first. -/
def rank (c : OMPTCctx) : ℤ ×ₗ ℤ ×ₗ ℤ :=
  toLex (c.type.toNat, toLex (c.numThreads.toNat, c.addr.toNat))

theorem lt_iff_rank (lhs rhs : OMPTCctx) :
    lhs.lt rhs = true ↔ lhs.rank < rhs.rank := by
  simp only [lt, rank, Prod.Lex.toLex_lt_toLex, Int.ofNat_lt, Int.ofNat_inj,
    UInt64.toNat_inj, ← UInt64.lt_iff_toNat_lt]
  by_cases sameType : lhs.type = rhs.type
  · by_cases sameThreads : lhs.numThreads = rhs.numThreads
    · simp [sameType, sameThreads]
    · simp [sameType, sameThreads]
  · simp [sameType]

theorem eq_iff_rank (lhs rhs : OMPTCctx) :
    lhs.eq rhs = true ↔ lhs.rank = rhs.rank := by
  simp [eq, rank, UInt64.toNat_inj]

end OMPTCctx

/-- `CallingContext`: the tag and the words of the union. -/
structure CallingContext where
  type : CallingContextType
  word0 : UInt64
  word1 : UInt64
  word2 : UInt64
  word3 : UInt64
  deriving DecidableEq, Repr

/-- The words behind the first one, which only an OpenMP context writes. -/
structure UnwrittenWords where
  word1 : UInt64
  word2 : UInt64
  word3 : UInt64
  deriving DecidableEq, Repr

namespace CallingContext

def p (c : CallingContext) : Process := ⟨c.word0.toInt64⟩

def t (c : CallingContext) : Thread := ⟨c.word0.toInt64⟩

def addr (c : CallingContext) : UInt64 := c.word0

def kernelId (c : CallingContext) : UInt64 := c.word0

def syscallId (c : CallingContext) : UInt64 := c.word0

def ompCctx (c : CallingContext) : OMPTCctx :=
  ⟨c.word0, c.word1.toInt64, c.word2, c.word3⟩

/-- The private constructor: `addr(0)` writes the first word only. -/
private def ofType (type : CallingContextType) (rest : UnwrittenWords) :
    CallingContext :=
  ⟨type, 0, rest.word1, rest.word2, rest.word3⟩

def process (p : Process) (rest : UnwrittenWords) : CallingContext :=
  { ofType .process rest with word0 := p.pid.toUInt64 }

def thread (t : Thread) (rest : UnwrittenWords) : CallingContext :=
  { ofType .thread rest with word0 := t.tid.toUInt64 }

def sample (addr : UInt64) (rest : UnwrittenWords) : CallingContext :=
  { ofType .sampleAddr rest with word0 := addr }

def gpuKernel (kernelId : UInt64) (rest : UnwrittenWords) : CallingContext :=
  { ofType .gpuKernel rest with word0 := kernelId }

def syscall (id : UInt64) (rest : UnwrittenWords) : CallingContext :=
  { ofType .syscall rest with word0 := id }

def openmp (cctx : OMPTCctx) : CallingContext :=
  ⟨.openmp, cctx.type, cctx.tid.toUInt64, cctx.addr, cctx.numThreads⟩

def root (rest : UnwrittenWords) : CallingContext := ofType .root rest

/-- What the comparisons throw on a root. -/
def twoRoots : Failure :=
  .runtimeError "Can not have two CallingContext Roots!"

/-- `operator<`. -/
def lt (lhs rhs : CallingContext) : Except Failure Bool :=
  if lhs.type ≠ rhs.type then .ok (lhs.type.toInt < rhs.type.toInt)
  else
    match lhs.type with
    | .process => .ok (lhs.p.pid < rhs.p.pid)
    | .thread => .ok (lhs.t.tid < rhs.t.tid)
    | .gpuKernel => .ok (lhs.kernelId < rhs.kernelId)
    | .sampleAddr => .ok (lhs.addr < rhs.addr)
    | .syscall => .ok (lhs.syscallId < rhs.syscallId)
    | .openmp => .ok (lhs.ompCctx.lt rhs.ompCctx)
    | .root => .error twoRoots

/-- `operator==`. -/
def eq (lhs rhs : CallingContext) : Except Failure Bool :=
  if lhs.type = rhs.type then
    match lhs.type with
    | .root => .error twoRoots
    | .process => .ok (lhs.p.pid == rhs.p.pid)
    | .thread => .ok (lhs.t.tid == rhs.t.tid)
    | .sampleAddr => .ok (lhs.addr == rhs.addr)
    | .gpuKernel => .ok (lhs.kernelId == rhs.kernelId)
    | .syscall => .ok (lhs.syscallId == rhs.syscallId)
    | .openmp => .ok (lhs.ompCctx.eq rhs.ompCctx)
  else .ok false

/-- The `switch` of `operator!=`: the member of the left type is read from both
sides. -/
def memberNe (lhs rhs : CallingContext) : Except Failure Bool :=
  match lhs.type with
  | .root => .error twoRoots
  | .process => .ok (lhs.p.pid != rhs.p.pid)
  | .thread => .ok (lhs.t.tid != rhs.t.tid)
  | .gpuKernel => .ok (lhs.kernelId != rhs.kernelId)
  | .sampleAddr => .ok (lhs.addr != rhs.addr)
  | .syscall => .ok (lhs.syscallId != rhs.syscallId)
  | .openmp => .ok (lhs.ompCctx.ne rhs.ompCctx)

/-- `operator!=`.  Unlike `operator==`, it compares members when the types
differ, and answers `false` when they agree. -/
def ne (lhs rhs : CallingContext) : Except Failure Bool :=
  if lhs.type ≠ rhs.type then memberNe lhs rhs else .ok false

/-- The value of the active member, padded to three numbers. -/
def memberRank (c : CallingContext) : ℤ ×ₗ ℤ ×ₗ ℤ :=
  match c.type with
  | .root => toLex (0, toLex (0, 0))
  | .process => toLex (c.p.pid.toInt, toLex (0, 0))
  | .thread => toLex (c.t.tid.toInt, toLex (0, 0))
  | .sampleAddr => toLex (c.addr.toNat, toLex (0, 0))
  | .gpuKernel => toLex (c.kernelId.toNat, toLex (0, 0))
  | .syscall => toLex (c.syscallId.toNat, toLex (0, 0))
  | .openmp => c.ompCctx.rank

/-- A context up to `operator==`: its type and the value of its member. -/
def rank (c : CallingContext) : ℤ ×ₗ ℤ ×ₗ ℤ ×ₗ ℤ :=
  toLex (c.type.toInt, c.memberRank)

end CallingContext

/-- A context that `cctx_enter` may be given: the root is there already. -/
structure EnteredContext where
  context : CallingContext
  notRoot : context.type ≠ .root

namespace EnteredContext

def process (p : Process) (rest : UnwrittenWords) : EnteredContext :=
  ⟨.process p rest, by simp [CallingContext.process, CallingContext.ofType]⟩

def thread (t : Thread) (rest : UnwrittenWords) : EnteredContext :=
  ⟨.thread t rest, by simp [CallingContext.thread, CallingContext.ofType]⟩

def sample (addr : UInt64) (rest : UnwrittenWords) : EnteredContext :=
  ⟨.sample addr rest, by simp [CallingContext.sample, CallingContext.ofType]⟩

def syscall (id : UInt64) (rest : UnwrittenWords) : EnteredContext :=
  ⟨.syscall id rest, by simp [CallingContext.syscall, CallingContext.ofType]⟩

def gpuKernel (kernelId : UInt64) (rest : UnwrittenWords) : EnteredContext :=
  ⟨.gpuKernel kernelId rest,
    by simp [CallingContext.gpuKernel, CallingContext.ofType]⟩

def openmp (cctx : OMPTCctx) : EnteredContext :=
  ⟨.openmp cctx, by simp [CallingContext.openmp]⟩

/-- `operator<` as the comparator of the maps, which hold no root. -/
def before (lhs rhs : EnteredContext) : Bool :=
  match lhs.context.lt rhs.context with
  | .ok result => result
  | .error _ => false

/-- `operator!=` on contexts that are no roots. -/
def differs (lhs rhs : EnteredContext) : Bool :=
  match lhs.context.ne rhs.context with
  | .ok result => result
  | .error _ => false

theorem lt_eq_ok (lhs rhs : EnteredContext) :
    lhs.context.lt rhs.context = .ok (lhs.before rhs) := by
  have notRoot := lhs.notRoot
  unfold before CallingContext.lt
  by_cases same : lhs.context.type = rhs.context.type
  · cases kind : lhs.context.type <;> simp_all
  · simp [same]

theorem ne_eq_ok (lhs rhs : EnteredContext) :
    lhs.context.ne rhs.context = .ok (lhs.differs rhs) := by
  have notRoot := lhs.notRoot
  unfold differs CallingContext.ne CallingContext.memberNe
  by_cases same : lhs.context.type = rhs.context.type
  · simp [same]
  · cases kind : lhs.context.type <;> simp_all

theorem differs_iff {lhs rhs : EnteredContext} :
    lhs.differs rhs = true ↔
      lhs.context.type ≠ rhs.context.type ∧
        lhs.context.memberNe rhs.context = .ok true := by
  by_cases same : lhs.context.type = rhs.context.type
  · simp [differs, CallingContext.ne, same]
  · cases read : lhs.context.memberNe rhs.context <;>
      simp [differs, CallingContext.ne, same, read]

theorem before_iff_rank (lhs rhs : EnteredContext) :
    lhs.before rhs = true ↔ lhs.context.rank < rhs.context.rank := by
  have notRoot := lhs.notRoot
  unfold before CallingContext.lt CallingContext.rank
  rw [Prod.Lex.toLex_lt_toLex]
  by_cases same : lhs.context.type = rhs.context.type
  · unfold CallingContext.memberRank
    rw [← same]
    generalize lhs.context.type = type at notRoot
    cases type <;>
      simp [Prod.Lex.toLex_lt_toLex, OMPTCctx.lt_iff_rank,
        Int64.lt_iff_toInt_lt, UInt64.lt_iff_toNat_lt] at notRoot ⊢
  · have different : lhs.context.type.toInt ≠ rhs.context.type.toInt :=
      fun equality => same (CallingContextType.toInt_injective equality)
    simp [same, different]

instance : KeyOrder EnteredContext :=
  .ofRank (fun c => c.context.rank) before before_iff_rank

theorem equivalent_iff_rank {lhs rhs : EnteredContext} :
    KeyOrder.Equivalent lhs rhs ↔ lhs.context.rank = rhs.context.rank := by
  change lhs.before rhs = false ∧ rhs.before lhs = false ↔ _
  rw [← Bool.not_eq_true, ← Bool.not_eq_true, before_iff_rank, before_iff_rank,
    not_lt, not_lt, le_antisymm_iff, and_comm]

theorem eq_eq_ok (lhs rhs : EnteredContext) :
    lhs.context.eq rhs.context =
      .ok (decide (KeyOrder.Equivalent lhs rhs)) := by
  have notRoot := lhs.notRoot
  simp only [equivalent_iff_rank]
  unfold CallingContext.eq CallingContext.rank
  by_cases same : lhs.context.type = rhs.context.type
  · unfold CallingContext.memberRank
    rw [← same]
    generalize lhs.context.type = type at notRoot
    cases type <;>
      simp [← OMPTCctx.eq_iff_rank, Int64.toInt_inj,
        UInt64.toNat_inj, beq_eq_decide] at notRoot ⊢
  · have different : lhs.context.type.toInt ≠ rhs.context.type.toInt :=
      fun equality => same (CallingContextType.toInt_injective equality)
    simp [same, different]

theorem type_eq_of_equivalent {lhs rhs : EnteredContext}
    (equivalent : KeyOrder.Equivalent lhs rhs) :
    lhs.context.type = rhs.context.type := by
  rw [equivalent_iff_rank] at equivalent
  exact CallingContextType.toInt_injective (congrArg Prod.fst equivalent)

theorem not_equivalent_of_differs {lhs rhs : EnteredContext}
    (different : lhs.differs rhs = true) : ¬ KeyOrder.Equivalent lhs rhs :=
  fun equivalent => (differs_iff.mp different).1 (type_eq_of_equivalent equivalent)

end EnteredContext

end Lo2s
