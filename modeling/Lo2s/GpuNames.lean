import Lo2s.GpuOrder
import Lo2s.GpuRingbuf

/-!
# The names of GPU kernels

Every number stands for one name, and the definition of a name is committed
before any kernel that carries its number, with one exception: where the
definition has been refused, the number is zero, whatever that stands for.  The
monitor has read all definitions in front of a kernel when it takes the kernel.
-/

namespace Lo2s

open Foundation ShmRingbuf RingbufSession

namespace GpuCommit

/-- What is in the ring buffer. -/
def bytes : GpuCommit → List UInt8
  | .kernelDef kernelId name =>
      word (GpuSession.sizeofKernelDef + GpuSession.nameSize name) ++ word 1 ++
        word kernelId ++ name.bytes ++ [0]
  | .kernel execution kernelId =>
      word GpuSession.sizeofKernel ++ word 0 ++ word execution.start ++
        word execution.end_ ++ word kernelId

/-- What the monitor reads. -/
def event : GpuCommit → GpuEvent
  | .kernelDef kernelId name => .kernelDef kernelId name.bytes
  | .kernel execution kernelId =>
      .kernel execution.start execution.end_ kernelId

end GpuCommit

namespace GpuSession

variable {s next : GpuSession} {ring : RingbufSession}
  {pending : List (List UInt8)}

/-- What `kernel_def` and `kernel` reserve. -/
def nameRequest (name : KernelName) : EventRequest where
  sizeofT := sizeofKernelDef
  payload := nameSize name
  header := by decide
  representable := by
    have representable := name.representable
    rw [nameSize, UInt64.toNat_ofNat']
    have size : sizeofKernelDef.toNat = 25 := rfl
    omega

def kernelRequest : EventRequest :=
  ⟨sizeofKernel, 0, by decide, by decide⟩

theorem getTopEventType_eq {event back : List UInt8} {size type : UInt64}
    {events : List (List UInt8)} (framing : Framing ring (event :: events))
    (shape : event = word size ++ word type ++ back) :
    getTopEventType ring.rb = .ok type := by
  rw [getTopEventType, framing.headerTail_eq, if_neg (List.cons_ne_nil _ _)]
  exact framing.loadSize_field shape (length_word size)

theorem getEvent_eq {event : List UInt8} {events : List (List UInt8)}
    (framing : Framing ring (event :: events)) :
    getEvent ring.rb = .ok ring.rb.header.tail.toNat := by
  rw [getEvent, framing.get_eq, if_neg (List.cons_ne_nil _ _)]

theorem readEvent_eq {commit : GpuCommit} {events : List (List UInt8)}
    (framing : Framing ring (commit.bytes :: events)) :
    readEvent ring.rb = .ok commit.event := by
  have position := getEvent_eq framing
  cases commit with
  | kernelDef kernelId name =>
      have type := getTopEventType_eq framing
        (show GpuCommit.bytes (.kernelDef kernelId name) =
          word (sizeofKernelDef + nameSize name) ++ word 1 ++
            (word kernelId ++ name.bytes ++ [0]) by simp [GpuCommit.bytes])
      have id := framing.loadSize_field
        (show GpuCommit.bytes (.kernelDef kernelId name) =
          (word (sizeofKernelDef + nameSize name) ++ word 1) ++ word kernelId ++
            (name.bytes ++ [0]) by simp [GpuCommit.bytes])
        (show _ = 16 by simp)
      have function := framing.loadString_field
        (show GpuCommit.bytes (.kernelDef kernelId name) =
          (word (sizeofKernelDef + nameSize name) ++ word 1 ++ word kernelId) ++
            name.bytes ++ [0] by simp [GpuCommit.bytes])
        (show _ = 24 by simp) name.noZero
      simp [readEvent, type, position, id, function, bind, Except.bind, pure,
        Except.pure, GpuCommit.event]
  | kernel kernel kernelId =>
      have type := getTopEventType_eq framing
        (show GpuCommit.bytes (.kernel kernel kernelId) =
          word sizeofKernel ++ word 0 ++
            (word kernel.start ++ word kernel.end_ ++ word kernelId) by
              simp [GpuCommit.bytes])
      have start := framing.loadSize_field
        (show GpuCommit.bytes (.kernel kernel kernelId) =
          (word sizeofKernel ++ word 0) ++ word kernel.start ++
            (word kernel.end_ ++ word kernelId) by simp [GpuCommit.bytes])
        (show _ = 16 by simp)
      have stop := framing.loadSize_field
        (show GpuCommit.bytes (.kernel kernel kernelId) =
          (word sizeofKernel ++ word 0 ++ word kernel.start) ++
            word kernel.end_ ++ word kernelId by simp [GpuCommit.bytes])
        (show _ = 24 by simp)
      have id := framing.loadSize_field
        (show GpuCommit.bytes (.kernel kernel kernelId) =
          (word sizeofKernel ++ word 0 ++ word kernel.start ++
            word kernel.end_) ++ word kernelId ++ [] by simp [GpuCommit.bytes])
        (show _ = 32 by simp)
      simp [readEvent, type, position, start, stop, id, bind, Except.bind, pure,
        Except.pure, GpuCommit.event]

/-- A reservation that has been filled with an event. -/
structure Filled (event : List UInt8) (pending : List (List UInt8))
    (ring next : RingbufSession) : Prop where
  framing : Framing next pending
  content : next.reservedEvent = event
  active : next.reservedSize ≠ 0
  committed : next.committed = ring.committed
  popped : next.popped = ring.popped

/-- A reservation is refused, or it holds zeroes behind its size. -/
theorem reserve_cases (framing : Framing ring pending)
    (inactive : ring.reservedSize = 0) {request : EventRequest}
    (representable : ¬ ring.Overflows (.reserve request)) :
    ring.reserve request.sizeofT request.payload = .ok ring ∨
    ∃ next, ring.reserve request.sizeofT request.payload = .ok next ∧
      Filled (word (request.sizeofT + request.payload) ++
        List.replicate ((request.sizeofT + request.payload).toNat - 8) 0)
        pending ring next := by
  have fits : ring.rb.header.head.toNat +
      padded (request.sizeofT + request.payload).toNat < 2 ^ 64 := by
    rw [request.size_eq]
    exact Nat.lt_of_not_le representable
  have large : 16 ≤ (request.sizeofT + request.payload).toNat := by
    have header := UInt64.le_iff_toNat_le.mp request.header
    rw [request.size_eq]
    exact Nat.le_trans header (Nat.le_add_right _ _)
  cases refused : ring.rb.refuses
      (roundUp (request.sizeofT + request.payload)) with
  | true => exact .inl (framing.reserve_refused inactive refused)
  | false =>
      obtain ⟨reserved, nextFraming⟩ :=
        framing.reserve_admitted inactive large fits refused
      have room := framing.fits_of_not_refuses fits refused
      refine .inr ⟨_, reserved, nextFraming,
        reservedEvent_cleared large (by omega), ?_, rfl, rfl⟩
      intro none
      have zero : (request.sizeofT + request.payload).toNat = 0 :=
        congrArg UInt64.toNat none
      omega

theorem Filled.storeField {content front old back cells : List UInt8}
    {offset : Nat} {middle : RingbufSession}
    (filled : Filled content pending ring middle)
    (shape : content = front ++ old ++ back) (position : front.length = offset)
    (behind : 8 ≤ offset) (same : cells.length = old.length) :
    ∃ next, middle.storeField offset cells = .ok next ∧
      Filled (front ++ cells ++ back) pending ring next := by
  obtain ⟨next, stored, framing, content, size, _, committed, popped⟩ :=
    filled.framing.storeField_spec (filled.content.trans shape) position behind
      same
  exact ⟨next, stored, framing, content, size ▸ filled.active,
    committed.trans filled.committed, popped.trans filled.popped⟩

theorem nameSize_toNat (name : KernelName) :
    (nameSize name).toNat = name.bytes.length := by
  have representable := name.representable
  rw [nameSize, UInt64.toNat_ofNat']
  omega

theorem size_nameRequest (name : KernelName) :
    (sizeofKernelDef + nameSize name).toNat - 8 =
      8 + (8 + (name.bytes.length + 1)) := by
  have sum := (nameRequest name).size_eq
  have named := nameSize_toNat name
  have fixed : sizeofKernelDef.toNat = 25 := rfl
  change (sizeofKernelDef + nameSize name).toNat =
    sizeofKernelDef.toNat + (nameSize name).toNat at sum
  omega

/-- `kernel_def` either gets no memory and returns zero, or it has filled in the
definition of the next number. -/
theorem defineName_cases (framing : Framing s.ring pending)
    (inactive : s.ring.reservedSize = 0) {kernel : ActivityKernel}
    (representable : ¬ s.ring.Overflows (.reserve (nameRequest kernel.name))) :
    s.defineName kernel = .ok { s with phase := .launching kernel 0 } ∨
    ∃ ring, Filled (GpuCommit.kernelDef s.nextCctxRef kernel.name).bytes pending
        s.ring ring ∧
      s.defineName kernel = .ok { s with
        ring := ring
        cctxs := s.cctxs.insert kernel.name s.nextCctxRef
        nextCctxRef := s.nextCctxRef + 1
        phase := .defined kernel s.nextCctxRef } := by
  let size := word (sizeofKernelDef + nameSize kernel.name)
  let zeroes := List.replicate 8 (0 : UInt8)
  rcases reserve_cases framing inactive representable with
    refused | ⟨first, reserved, filled⟩
  · change s.ring.reserve sizeofKernelDef (nameSize kernel.name) = _ at refused
    left
    simp [defineName, refused, inactive, bind, Except.bind, pure, Except.pure]
  · change s.ring.reserve sizeofKernelDef (nameSize kernel.name) = _ at reserved
    change Filled (size ++ List.replicate
      ((sizeofKernelDef + nameSize kernel.name).toNat - 8) 0) _ _ _ at filled
    rw [size_nameRequest] at filled
    have active := filled.active
    have function : ∃ next, first.storeField 24 kernel.name.bytes = .ok next ∧
        Filled (size ++ zeroes ++ zeroes ++ kernel.name.bytes ++ [0]) pending
          s.ring next :=
      filled.storeField
        (show _ = (size ++ zeroes ++ zeroes) ++
            List.replicate kernel.name.bytes.length 0 ++ [0] by
          simp [zeroes, List.replicate_add])
        (by simp [size, zeroes]) (by decide) (by simp)
    obtain ⟨second, function, filled⟩ := function
    have type : ∃ next, second.storeField 8 (word 1) = .ok next ∧
        Filled (size ++ word 1 ++ (zeroes ++ kernel.name.bytes ++ [0])) pending
          s.ring next :=
      filled.storeField
        (show _ = size ++ zeroes ++ (zeroes ++ kernel.name.bytes ++ [0]) by simp)
        (length_word _) (by decide) (by simp [zeroes])
    obtain ⟨third, type, filled⟩ := type
    have id : ∃ next, third.storeField 16 (word s.nextCctxRef) = .ok next ∧
        Filled (size ++ word 1 ++ word s.nextCctxRef ++
          (kernel.name.bytes ++ [0])) pending s.ring next :=
      filled.storeField
        (show _ = (size ++ word 1) ++ zeroes ++ (kernel.name.bytes ++ [0]) by
          simp)
        (by simp [size]) (by decide) (by simp [zeroes])
    obtain ⟨ring, id, filled⟩ := id
    refine .inr ⟨ring, ?_, ?_⟩
    · have content : (GpuCommit.kernelDef s.nextCctxRef kernel.name).bytes =
          size ++ word 1 ++ word s.nextCctxRef ++ (kernel.name.bytes ++ [0]) := by
        simp [GpuCommit.bytes, size]
      exact content ▸ filled
    · simp only [defineName, reserved, bind, Except.bind]
      rw [if_neg active]
      simp only [function, type, id]
      rfl

/-- `kernel` either gets no memory and gives up, or it has filled in the
event. -/
theorem launch_cases (framing : Framing s.ring pending)
    (inactive : s.ring.reservedSize = 0) {kernel : ActivityKernel}
    {cctx : UInt64}
    (representable : ¬ s.ring.Overflows (.reserve kernelRequest)) :
    s.launch kernel cctx = .ok { s with phase := .idle } ∨
    ∃ ring, Filled (GpuCommit.kernel kernel cctx).bytes pending s.ring ring ∧
      s.launch kernel cctx = .ok { s with
        ring := ring
        phase := .launched kernel cctx } := by
  let size := word sizeofKernel
  let zeroes := List.replicate 8 (0 : UInt8)
  rcases reserve_cases framing inactive representable with
    refused | ⟨first, reserved, filled⟩
  · change s.ring.reserve sizeofKernel 0 = _ at refused
    left
    simp [launch, refused, inactive, bind, Except.bind, pure, Except.pure]
  · change s.ring.reserve sizeofKernel 0 = _ at reserved
    change Filled (size ++ (zeroes ++ zeroes ++ zeroes ++ zeroes)) _ _ _ at filled
    have active := filled.active
    have type : ∃ next, first.storeField 8 (word 0) = .ok next ∧
        Filled (size ++ word 0 ++ (zeroes ++ zeroes ++ zeroes)) pending s.ring
          next :=
      filled.storeField
        (show _ = size ++ zeroes ++ (zeroes ++ zeroes ++ zeroes) by simp)
        (length_word _) (by decide) (by simp [zeroes])
    obtain ⟨second, type, filled⟩ := type
    have start : ∃ next, second.storeField 16 (word kernel.start) = .ok next ∧
        Filled (size ++ word 0 ++ word kernel.start ++ (zeroes ++ zeroes))
          pending s.ring next :=
      filled.storeField
        (show _ = (size ++ word 0) ++ zeroes ++ (zeroes ++ zeroes) by simp)
        (by simp [size]) (by decide) (by simp [zeroes])
    obtain ⟨third, start, filled⟩ := start
    have stop : ∃ next, third.storeField 24 (word kernel.end_) = .ok next ∧
        Filled (size ++ word 0 ++ word kernel.start ++ word kernel.end_ ++ zeroes)
          pending s.ring next :=
      filled.storeField
        (show _ = (size ++ word 0 ++ word kernel.start) ++ zeroes ++ zeroes by
          simp)
        (by simp [size]) (by decide) (by simp [zeroes])
    obtain ⟨fourth, stop, filled⟩ := stop
    have id : ∃ next, fourth.storeField 32 (word cctx) = .ok next ∧
        Filled (size ++ word 0 ++ word kernel.start ++ word kernel.end_ ++
          word cctx ++ []) pending s.ring next :=
      filled.storeField
        (show _ = (size ++ word 0 ++ word kernel.start ++ word kernel.end_) ++
          zeroes ++ [] by simp)
        (by simp [size]) (by decide) (by simp [zeroes])
    obtain ⟨ring, id, filled⟩ := id
    rw [List.append_nil] at filled
    refine .inr ⟨ring, filled, ?_⟩
    simp only [launch, reserved, bind, Except.bind]
    rw [if_neg active]
    simp only [type, start, stop, id]
    rfl

/-- Different names have different numbers, all below the next one. -/
structure Numbered (cctxs : FiniteMap KernelName UInt64) (next : UInt64) :
    Prop where
  below : ∀ name id, cctxs.lookup name = some id → id < next
  distinct : ∀ first second id, cctxs.lookup first = some id →
    cctxs.lookup second = some id → first = second

theorem Numbered.empty : Numbered ∅ 0 where
  below _ _ found := nomatch found
  distinct _ _ _ found := nomatch found

theorem Numbered.insert {cctxs : FiniteMap KernelName UInt64} {next : UInt64}
    (numbered : Numbered cctxs next) (noWrap : next ≠ 0 - 1)
    (name : KernelName) : Numbered (cctxs.insert name next) (next + 1) := by
  have after : next < next + 1 := by
    have bound := next.toNat_lt
    rw [ne_eq, ← UInt64.toNat_inj] at noWrap
    have last : (0 - 1 : UInt64).toNat = 2 ^ 64 - 1 := rfl
    rw [UInt64.lt_iff_toNat_lt, UInt64.toNat_add]
    have one : (1 : UInt64).toNat = 1 := rfl
    omega
  constructor
  · intro other id found
    rw [FiniteMap.lookup_insert] at found
    split_ifs at found with same
    · rw [Option.some.injEq] at found
      exact found ▸ after
    · exact UInt64.lt_trans (numbered.below other id found) after
  · intro first second id foundFirst foundSecond
    rw [FiniteMap.lookup_insert] at foundFirst foundSecond
    split_ifs at foundFirst foundSecond with isFirst isSecond isSecond
    · exact isFirst.trans isSecond.symm
    · rw [Option.some.injEq] at foundFirst
      have less := numbered.below second id foundSecond
      exact absurd less (foundFirst ▸ UInt64.lt_irrefl next)
    · rw [Option.some.injEq] at foundSecond
      have less := numbered.below first id foundFirst
      exact absurd less (foundSecond ▸ UInt64.lt_irrefl next)
    · exact numbered.distinct first second id foundFirst foundSecond

/-- What holds of the writer in its phases.  A name without a number can only
be on its way to the kernel event. -/
def Prepared (s : GpuSession) : GpuPhase → Prop
  | .idle => s.ring.reservedSize = 0
  | .defining _ => s.ring.reservedSize = 0
  | .defined kernel cctx =>
      s.ring.reservedSize ≠ 0 ∧
        s.ring.reservedEvent = (GpuCommit.kernelDef cctx kernel.name).bytes ∧
        s.cctxs.lookup kernel.name = some cctx
  | .launching kernel cctx =>
      s.ring.reservedSize = 0 ∧
        ∀ other, s.cctxs.lookup kernel.name = some other → other = cctx
  | .launched kernel cctx =>
      s.ring.reservedSize ≠ 0 ∧
        s.ring.reservedEvent = (GpuCommit.kernel kernel cctx).bytes ∧
        ∀ other, s.cctxs.lookup kernel.name = some other → other = cctx

theorem Prepared.withRing {phase : GpuPhase} {ring : RingbufSession}
    {monitor : GpuMonitor} (prepared : Prepared s phase)
    (size : ring.reservedSize = s.ring.reservedSize)
    (content : ring.reservedEvent = s.ring.reservedEvent) :
    Prepared { s with
      ring := ring
      monitor := monitor } phase := by
  cases phase <;> simpa only [Prepared, size, content] using prepared

/-- A kernel is committed after the definition of its name. -/
def DefinedBefore (earlier : List GpuCommit) (commit : GpuCommit) : Prop :=
  ∀ kernel id, commit = .kernel kernel id →
    .kernelDef id kernel.name ∈ earlier

/-- A session in which the monitor has taken some of what has been committed,
and the rest is pending. -/
structure Tracked (s : GpuSession) (taken pending : List GpuCommit) : Prop where
  framing : Framing s.ring (pending.map GpuCommit.bytes)
  commits : s.commits = taken ++ pending
  committed : s.ring.committed = s.commits.map GpuCommit.bytes
  popped : s.ring.popped = taken.map GpuCommit.bytes
  numbered : Numbered s.cctxs s.nextCctxRef
  known : ∀ id name, .kernelDef id name ∈ s.commits →
    s.cctxs.lookup name = some id
  defined : ∀ name id, s.cctxs.lookup name = some id →
    .kernelDef id name ∈ s.commits ∨
      ∃ kernel, s.phase = .defined kernel id ∧ kernel.name = name
  prepared : Prepared s s.phase
  ordered : Throughout DefinedBefore s.commits
  ready : GpuMonitor.Ready s.monitor.localCctxTree
  functions : ∀ id chars, s.monitor.functions.lookup id = some chars ↔
    ∃ name, .kernelDef id name ∈ taken ∧ name.bytes = chars

theorem Tracked.start (size : BufferSize) (memory : Circular UInt8)
    {monitor : GpuMonitor} (ready : GpuMonitor.Ready monitor.localCctxTree)
    (unnamed : monitor.functions = ∅) :
    Tracked (.start size memory monitor) [] [] where
  framing := .start size memory
  commits := rfl
  committed := rfl
  popped := rfl
  numbered := .empty
  known _ _ member := nomatch member
  defined _ _ found := nomatch found
  prepared := rfl
  ordered := .nil
  ready := ready
  functions id chars := by
    show monitor.functions.lookup id = some chars ↔ _
    rw [unnamed]
    simp

section

variable {taken pending : List GpuCommit}

/-- Outside of the definition of a name every number has been defined. -/
theorem Tracked.mem_commits (tracked : Tracked s taken pending)
    (elsewhere : ∀ kernel id, s.phase ≠ .defined kernel id) {name : KernelName}
    {id : UInt64} (found : s.cctxs.lookup name = some id) :
    .kernelDef id name ∈ s.commits := by
  rcases tracked.defined name id found with committed | ⟨kernel, phase, _⟩
  · exact committed
  · exact absurd phase (elsewhere kernel id)

theorem Tracked.withPhase (tracked : Tracked s taken pending)
    (elsewhere : ∀ kernel id, s.phase ≠ .defined kernel id) {phase : GpuPhase}
    (prepared : Prepared s phase) :
    Tracked { s with phase := phase } taken pending :=
  { tracked with
    defined := fun _ _ found => .inl (tracked.mem_commits elsewhere found)
    prepared := prepared }

theorem Tracked.define (tracked : Tracked s taken pending)
    {kernel : ActivityKernel} (phase : s.phase = .defining kernel)
    (unknown : s.cctxs.lookup kernel.name = none)
    (noWrap : s.nextCctxRef ≠ 0 - 1) {ring : RingbufSession}
    (filled : Filled (GpuCommit.kernelDef s.nextCctxRef kernel.name).bytes
      (pending.map GpuCommit.bytes) s.ring ring) :
    Tracked { s with
      ring := ring
      cctxs := s.cctxs.insert kernel.name s.nextCctxRef
      nextCctxRef := s.nextCctxRef + 1
      phase := .defined kernel s.nextCctxRef } taken pending where
  framing := filled.framing
  commits := tracked.commits
  committed := filled.committed.trans tracked.committed
  popped := filled.popped.trans tracked.popped
  numbered := tracked.numbered.insert noWrap kernel.name
  known id name member := by
    have found := tracked.known id name member
    rw [FiniteMap.lookup_insert, if_neg]
    · exact found
    · rintro rfl
      rw [unknown] at found
      cases found
  defined name id found := by
    rw [FiniteMap.lookup_insert] at found
    split_ifs at found with same
    · rw [Option.some.injEq] at found
      exact .inr ⟨kernel, by rw [found], same.symm⟩
    · refine .inl (tracked.mem_commits ?_ found)
      rw [phase]
      exact fun _ _ => GpuPhase.noConfusion
  prepared := by
    refine ⟨filled.active, filled.content, ?_⟩
    rw [FiniteMap.lookup_insert, if_pos rfl]
  ordered := tracked.ordered
  ready := tracked.ready
  functions := tracked.functions

theorem Tracked.launch (tracked : Tracked s taken pending)
    {kernel : ActivityKernel} {cctx : UInt64}
    (phase : s.phase = .launching kernel cctx) {ring : RingbufSession}
    (filled : Filled (GpuCommit.kernel kernel cctx).bytes
      (pending.map GpuCommit.bytes) s.ring ring) :
    Tracked { s with
      ring := ring
      phase := .launched kernel cctx } taken pending where
  framing := filled.framing
  commits := tracked.commits
  committed := filled.committed.trans tracked.committed
  popped := filled.popped.trans tracked.popped
  numbered := tracked.numbered
  known := tracked.known
  defined name id found := by
    refine .inl (tracked.mem_commits ?_ found)
    rw [phase]
    exact fun _ _ => GpuPhase.noConfusion
  prepared := by
    have prepared := tracked.prepared
    rw [phase] at prepared
    exact ⟨filled.active, filled.content, prepared.2⟩
  ordered := tracked.ordered
  ready := tracked.ready
  functions := tracked.functions

theorem Tracked.commit (tracked : Tracked s taken pending)
    {commit : GpuCommit} (phase : GpuPhase)
    (active : s.ring.reservedSize ≠ 0)
    (content : s.ring.reservedEvent = commit.bytes)
    (spare : ¬ s.ring.FillsUp .commit)
    (known : ∀ id name, commit = .kernelDef id name →
      s.cctxs.lookup name = some id)
    (defined : ∀ name id, s.cctxs.lookup name = some id →
      .kernelDef id name ∈ s.commits ++ [commit])
    (inactive : ∀ ring : RingbufSession, ring.reservedSize = 0 →
      Prepared { s with ring := ring } phase)
    (before : DefinedBefore s.commits commit) :
    ∃ next, s.commit commit phase = .ok next ∧
      Tracked next taken (pending ++ [commit]) := by
  obtain ⟨ring, committed, framing, size, log, popped⟩ :=
    tracked.framing.commit_spec active spare
  refine ⟨{ s with
      ring := ring
      phase := phase
      commits := s.commits ++ [commit] }, ?_, ?_⟩
  · rw [GpuSession.commit, committed]
    rfl
  · refine ⟨?_, ?_, ?_, popped.trans tracked.popped, tracked.numbered, ?_,
      fun name id found => .inl (defined name id found), inactive ring size,
      Throughout.concat_iff.mpr ⟨tracked.ordered, before⟩, tracked.ready,
      tracked.functions⟩
    · rw [content] at framing
      rw [List.map_append]
      exact framing
    · rw [tracked.commits, List.append_assoc]
    · rw [log, tracked.committed, content, List.map_append]
      rfl
    · intro id name member
      rcases List.mem_append.mp member with earlier | same
      · exact tracked.known id name earlier
      · exact known id name (List.mem_singleton.mp same).symm

/-- The names after an event of a commit. -/
def namesAfter (functions : FiniteMap Address (List UInt8)) :
    GpuCommit → FiniteMap Address (List UInt8)
  | .kernelDef kernelId name => functions.insertIfNew kernelId name.bytes
  | .kernel _ _ => functions

theorem handle_spec {g : GpuMonitor} (ready : GpuMonitor.Ready g.localCctxTree)
    (commit : GpuCommit) :
    ∃ next, g.handle commit.event = .ok next ∧
      GpuMonitor.Ready next.localCctxTree ∧
      next.functions = namesAfter g.functions commit := by
  cases commit with
  | kernelDef kernelId name => exact ⟨_, rfl, ready, rfl⟩
  | kernel kernel kernelId =>
      obtain ⟨tree, handled, after, _, _⟩ :=
        GpuMonitor.handleKernel_spec ready kernel.start kernel.end_ kernelId
      exact ⟨_, handled, after, rfl⟩

/-- The names are those of the definitions that have been taken. -/
theorem Tracked.names {commit : GpuCommit}
    (tracked : Tracked s taken (commit :: pending)) (id : Address)
    (chars : List UInt8) :
    (namesAfter s.monitor.functions commit).lookup id = some chars ↔
      ∃ name, .kernelDef id name ∈ taken ++ [commit] ∧ name.bytes = chars := by
  cases commit with
  | kernel kernel kernelId => simp [namesAfter, tracked.functions]
  | kernelDef kernelId defined =>
      have inside : GpuCommit.kernelDef kernelId defined ∈ s.commits := by
        rw [tracked.commits]
        exact List.mem_append_right _ List.mem_cons_self
      have found := tracked.known _ _ inside
      rw [namesAfter, FiniteMap.lookup_insertIfNew]
      by_cases same : id = kernelId
      · subst same
        rw [if_pos rfl, Option.some.injEq]
        have own : (s.monitor.functions.lookup id).getD defined.bytes =
            defined.bytes := by
          cases old : s.monitor.functions.lookup id with
          | none => rfl
          | some oldChars =>
              -- The same number has been defined before, for the same name.
              obtain ⟨name, member, rfl⟩ := (tracked.functions _ _).mp old
              have earlier : GpuCommit.kernelDef id name ∈ s.commits := by
                rw [tracked.commits]
                exact List.mem_append_left _ member
              have alike := tracked.numbered.distinct _ _ _
                (tracked.known _ _ earlier) found
              rw [Option.getD_some, alike]
        rw [own]
        constructor
        · rintro rfl
          exact ⟨defined, by simp, rfl⟩
        · rintro ⟨name, member, rfl⟩
          have earlier : GpuCommit.kernelDef id name ∈ s.commits := by
            rw [tracked.commits]
            rcases List.mem_append.mp member with before | last
            · exact List.mem_append_left _ before
            · rw [List.mem_singleton.mp last]
              exact List.mem_append_right _ List.mem_cons_self
          rw [tracked.numbered.distinct _ _ _ (tracked.known _ _ earlier) found]
      · rw [if_neg same, tracked.functions]
        simp [same]

theorem Tracked.monitorStep (tracked : Tracked s taken pending) :
    ∃ next taken pending, s.monitorStep = .ok next ∧
      Tracked next taken pending := by
  cases pending with
  | nil =>
      refine ⟨s, taken, [], ?_, tracked⟩
      simp only [GpuSession.monitorStep, tracked.framing.empty_eq, bind,
        Except.bind]
      rfl
  | cons commit pending =>
      have framing := tracked.framing
      rw [List.map_cons] at framing
      obtain ⟨monitor, handled, ready, functions⟩ :=
        handle_spec tracked.ready commit
      obtain ⟨ring, popped, nextFraming, _, committed, log⟩ := framing.pop_cons
      obtain ⟨size, content⟩ := pop_reserved popped
      refine ⟨{ s with
        ring := ring
        monitor := monitor }, taken ++ [commit], pending, ?_, ?_⟩
      · have notEmpty : RingbufReader.empty s.ring.rb = .ok false := by
          rw [framing.empty_eq]
          rfl
        rw [GpuSession.monitorStep, notEmpty]
        show (do
          let event ← readEvent s.ring.rb
          let monitor ← s.monitor.handle event
          let ring ← s.ring.pop
          return { s with
            ring := ring
            monitor := monitor }) = _
        rw [readEvent_eq framing]
        show (do
          let monitor ← s.monitor.handle commit.event
          let ring ← s.ring.pop
          return { s with
            ring := ring
            monitor := monitor }) = _
        rw [handled]
        show (do
          let ring ← s.ring.pop
          return { s with
            ring := ring
            monitor := monitor }) = _
        rw [popped]
        rfl
      · exact
          { framing := nextFraming
            commits := by
              rw [List.append_assoc]
              exact tracked.commits
            committed := committed.trans tracked.committed
            popped := by
              rw [log, tracked.popped, List.map_append]
              rfl
            numbered := tracked.numbered
            known := tracked.known
            defined := tracked.defined
            prepared := tracked.prepared.withRing size content
            ordered := tracked.ordered
            ready := ready
            functions := fun id chars => by
              show monitor.functions.lookup id = some chars ↔ _
              rw [functions]
              exact tracked.names id chars }

/-- The writer gets along with the ring buffer: a definition fits into 64 bits,
there is a number left for it, and no event fills the free part completely. -/
def PhaseSound (s : GpuSession) : GpuPhase → Prop
  | .defining kernel => s.cctxs.lookup kernel.name = none →
      ¬ s.ring.Overflows (.reserve (nameRequest kernel.name)) ∧
        s.nextCctxRef ≠ 0 - 1
  | .defined _ _ => ¬ s.ring.FillsUp .commit
  | .launched _ _ => ¬ s.ring.FillsUp .commit
  | _ => True

def Sound (s : GpuSession) : GpuInput → Prop
  | .advance => PhaseSound s s.phase
  | _ => True

/-- The name of a kernel that is about to be committed has a number. -/
def PhaseResolvable (s : GpuSession) : GpuPhase → Prop
  | .launched kernel _ => s.cctxs.lookup kernel.name ≠ none
  | _ => True

def Resolvable (s : GpuSession) : GpuInput → Prop
  | .advance => PhaseResolvable s s.phase
  | _ => True

instance PhaseSound.decidable (s : GpuSession) :
    ∀ phase, Decidable (s.PhaseSound phase)
  | .idle => isTrue trivial
  | .defining _ => inferInstanceAs (Decidable (_ → ¬ (_ ≤ _) ∧ _ ≠ _))
  | .defined _ _ => inferInstanceAs (Decidable (¬ (_ = _)))
  | .launching _ _ => isTrue trivial
  | .launched _ _ => inferInstanceAs (Decidable (¬ (_ = _)))

instance Sound.decidable (s : GpuSession) : ∀ input, Decidable (s.Sound input)
  | .report _ => isTrue trivial
  | .advance => inferInstanceAs (Decidable (s.PhaseSound s.phase))
  | .monitor => isTrue trivial

/-- Every kernel is reported under its own name. -/
structure Named (s : GpuSession) : Prop where
  committed : s.ring.committed = s.commits.map GpuCommit.bytes
  defined : Throughout DefinedBefore s.commits
  distinct : ∀ first second id, .kernelDef id first ∈ s.commits →
    .kernelDef id second ∈ s.commits → first = second
  resolved : ∃ taken, taken <+: s.commits ∧
    s.ring.popped = taken.map GpuCommit.bytes ∧
    ∀ kernel id, .kernel kernel id ∈ taken →
      s.monitor.lookupLineInfo id = some kernel.name.bytes

/-- In a history that defines its names first, each kernel comes with the
definition of its name. -/
theorem mem_of_definedBefore {history : List GpuCommit}
    (ordered : Throughout DefinedBefore history) {kernel : ActivityKernel}
    {id : UInt64} (member : .kernel kernel id ∈ history) :
    .kernelDef id kernel.name ∈ history := by
  obtain ⟨earlier, later, rfl⟩ := List.append_of_mem member
  have inside : earlier ++ [.kernel kernel id] <+:
      earlier ++ .kernel kernel id :: later := ⟨later, by simp⟩
  exact List.mem_append_left _ (ordered _ _ inside kernel id rfl)

theorem Tracked.visible (tracked : Tracked s taken pending) : Named s where
  committed := tracked.committed
  defined := tracked.ordered
  distinct first second id definedFirst definedSecond :=
    tracked.numbered.distinct first second id
      (tracked.known id first definedFirst)
      (tracked.known id second definedSecond)
  resolved := by
    have inside : taken <+: s.commits := ⟨pending, tracked.commits.symm⟩
    refine ⟨taken, inside, tracked.popped, ?_⟩
    intro kernel id member
    have defined := mem_of_definedBefore (tracked.ordered.earlier inside) member
    exact (tracked.functions id _).mpr ⟨kernel.name, defined, rfl⟩

theorem not_overflows_kernelRequest {events : List (List UInt8)}
    (framing : Framing ring events) :
    ¬ ring.Overflows (.reserve kernelRequest) := by
  have mapped := framing.mapped
  have inside := framing.headInside
  have size : padded (kernelRequest.sizeofT.toNat +
      kernelRequest.payload.toNat) = 40 := rfl
  show ¬ 2 ^ 64 ≤ ring.rb.header.head.toNat + padded _
  rw [size]
  have aligned := framing.sizeAligned
  omega

theorem Tracked.advance (tracked : Tracked s taken pending)
    (sound : s.PhaseSound s.phase) (resolvable : s.PhaseResolvable s.phase) :
    ∃ next pending, s.advance = .ok next ∧ Tracked next taken pending := by
  have prepared := tracked.prepared
  cases phase : s.phase with
  | idle => exact ⟨s, pending, by rw [GpuSession.advance, phase], tracked⟩
  | defining kernel =>
      rw [phase] at prepared sound
      have elsewhere : ∀ kernel id, s.phase ≠ .defined kernel id := by
        rw [phase]
        exact fun _ _ => GpuPhase.noConfusion
      cases known : s.cctxs.lookup kernel.name with
      | some cctx =>
          refine ⟨{ s with phase := .launching kernel cctx }, pending, ?_, ?_⟩
          · simp only [GpuSession.advance, phase, kernelDef, known]
          · refine tracked.withPhase elsewhere ⟨prepared, fun other found => ?_⟩
            rw [known, Option.some.injEq] at found
            exact found.symm
      | none =>
          obtain ⟨representable, noWrap⟩ := sound known
          have advanced : s.advance = s.defineName kernel := by
            simp only [GpuSession.advance, phase, kernelDef, known]
          rw [advanced]
          rcases defineName_cases tracked.framing prepared representable with
            refused | ⟨ring, filled, defined⟩
          · refine ⟨_, pending, refused, ?_⟩
            refine tracked.withPhase elsewhere ⟨prepared, fun other found => ?_⟩
            rw [known] at found
            cases found
          · exact ⟨_, pending, defined, tracked.define phase known noWrap filled⟩
  | defined kernel cctx =>
      rw [phase] at prepared sound
      obtain ⟨active, content, known⟩ := prepared
      obtain ⟨next, committed, nextTracked⟩ := tracked.commit
        (.launching kernel cctx) active content sound
        (by
          intro id name same
          cases same
          exact known)
        (by
          intro name id found
          rcases tracked.defined name id found with earlier | ⟨other, at_, named⟩
          · exact List.mem_append_left _ earlier
          · rw [phase] at at_
            cases at_
            exact named ▸ List.mem_append_right _ (List.mem_singleton_self _))
        (fun ring inactive => ⟨inactive, fun other found => by
          rw [known, Option.some.injEq] at found
          exact found.symm⟩)
        (fun _ _ same => nomatch same)
      exact ⟨next, _, by rw [GpuSession.advance, phase]; exact committed,
        nextTracked⟩
  | launching kernel cctx =>
      rw [phase] at prepared
      have advanced : s.advance = s.launch kernel cctx := by
        rw [GpuSession.advance, phase]
      rw [advanced]
      rcases launch_cases tracked.framing prepared.1
        (not_overflows_kernelRequest tracked.framing) with
        refused | ⟨ring, filled, launched⟩
      · refine ⟨_, pending, refused, tracked.withPhase ?_ prepared.1⟩
        rw [phase]
        exact fun _ _ => GpuPhase.noConfusion
      · exact ⟨_, pending, launched, tracked.launch phase filled⟩
  | launched kernel cctx =>
      rw [phase] at prepared sound resolvable
      obtain ⟨active, content, known⟩ := prepared
      have elsewhere : ∀ kernel id, s.phase ≠ .defined kernel id := by
        rw [phase]
        exact fun _ _ => GpuPhase.noConfusion
      obtain ⟨id, found⟩ := Option.ne_none_iff_exists'.mp resolvable
      obtain ⟨next, committed, nextTracked⟩ := tracked.commit
        .idle active content sound
        (fun _ _ same => nomatch same)
        (fun name id found =>
          List.mem_append_left _ (tracked.mem_commits elsewhere found))
        (fun ring inactive => inactive)
        (by
          intro other otherId same
          cases same
          exact tracked.mem_commits elsewhere (known id found ▸ found))
      exact ⟨next, _, by rw [GpuSession.advance, phase]; exact committed,
        nextTracked⟩

theorem Tracked.step (tracked : Tracked s taken pending) {input : GpuInput}
    (sound : s.Sound input) (resolvable : s.Resolvable input) :
    ∃ next taken pending, s.step input = .ok next ∧
      Tracked next taken pending := by
  cases input with
  | report kernel =>
      cases phase : s.phase with
      | idle =>
          have prepared := tracked.prepared
          rw [phase] at prepared
          refine ⟨{ s with phase := .defining kernel }, taken, pending, ?_, ?_⟩
          · simp only [GpuSession.step, phase]
          · refine tracked.withPhase ?_ prepared
            rw [phase]
            exact fun _ _ => GpuPhase.noConfusion
      | _ => exact ⟨s, taken, pending, by simp only [GpuSession.step, phase],
          tracked⟩
  | advance =>
      obtain ⟨next, after, advanced, nextTracked⟩ :=
        tracked.advance sound resolvable
      exact ⟨next, taken, after, advanced, nextTracked⟩
  | monitor => exact tracked.monitorStep

theorem Tracked.resolvable (tracked : Tracked s taken pending)
    {next : GpuSession} {input : GpuInput} (stepped : s.step input = .ok next)
    (named : Named next) : s.Resolvable input := by
  cases input with
  | report kernel => trivial
  | monitor => trivial
  | advance =>
      show s.PhaseResolvable s.phase
      cases phase : s.phase with
      | launched kernel cctx =>
          change s.advance = .ok next at stepped
          rw [GpuSession.advance, phase] at stepped
          obtain ⟨ring, _, finished⟩ := bind_eq_ok_iff.mp stepped
          cases finished
          have defined := (Throughout.concat_iff.mp named.defined).2 _ _ rfl
          rw [PhaseResolvable, tracked.known _ _ defined]
          exact Option.some_ne_none _
      | _ => trivial

end

/-- Along every interleaving of the accelerator and the monitor, every kernel
is reported under its own name if and only if no kernel is committed whose name
got no number. -/
theorem named_iff (size : BufferSize) (memory : Circular UInt8)
    (process : Process) (timeConverter : Converter) (interruptGenerator : Nat)
    (unwritten : UnwrittenWords) {inputs : List GpuInput}
    (sound : AllowedRun GpuSession.step Sound (.start size memory
      (.init process timeConverter interruptGenerator unwritten)) inputs) :
    Always GpuSession.step (.start size memory
        (.init process timeConverter interruptGenerator unwritten))
      (fun _ s => Named s) inputs ↔
    EveryStep GpuSession.step (.start size memory
        (.init process timeConverter interruptGenerator unwritten))
      Resolvable inputs := by
  refine always_iff (fun _ s => ∃ taken pending, Tracked s taken pending)
    ?_ ?_ ?_
    ⟨[], [], .start size memory (.init interruptGenerator) rfl⟩ sound
  · intro _ s holds
    obtain ⟨taken, pending, tracked⟩ := holds
    exact tracked.visible
  · intro _ s input holds sound resolvable
    obtain ⟨taken, pending, tracked⟩ := holds
    obtain ⟨next, taken, pending, stepped, nextTracked⟩ :=
      tracked.step sound resolvable
    exact ⟨next, stepped, taken, pending, nextTracked⟩
  · intro _ s input next holds _ stepped named
    obtain ⟨taken, pending, tracked⟩ := holds
    exact tracked.resolvable stepped named

/-- A session with a buffer of 56 bytes. -/
def smallSession : GpuSession :=
  .start ⟨56, by decide, by decide, by decide⟩ (fun _ => 0)
    (.init ⟨1⟩ ⟨0⟩ 0 ⟨0, 0, 0⟩)

/-- A kernel whose name is a letter, repeated. -/
def letterKernel (letter : UInt8) (count : Fin 64) (visible : letter ≠ 0) :
    ActivityKernel where
  start := 1
  end_ := 2
  name := ⟨List.replicate count letter, by simp [visible.symm], by
    rw [List.length_replicate]
    omega⟩

/-- A kernel with a short name, all of which the monitor reads. -/
def shortName : List GpuInput :=
  [.report (letterKernel 97 1 (by decide)), .advance, .advance, .monitor,
    .advance, .advance, .monitor]

theorem named_iff_shortName :
    Always GpuSession.step smallSession (fun _ s => Named s) shortName ↔
      EveryStep GpuSession.step smallSession Resolvable shortName :=
  named_iff _ _ _ _ _ _ (by decide +kernel)

/-- The definition of a long name is refused, and its kernel has the number of
the short one. -/
theorem longName_misnamed :
    ∃ s, run GpuSession.step smallSession (shortName ++
        [.report (letterKernel 98 40 (by decide)), .advance, .advance,
          .advance]) = .ok s ∧
      s.commits = [.kernelDef 0 (letterKernel 97 1 (by decide)).name,
        .kernel (letterKernel 97 1 (by decide)) 0,
        .kernel (letterKernel 98 40 (by decide)) 0] ∧
      s.monitor.lookupLineInfo 0 = some [97] ∧ ¬ Named s := by
  refine ⟨_, rfl, rfl, rfl, fun named => ?_⟩
  have defined : DefinedBefore
      [.kernelDef 0 (letterKernel 97 1 (by decide)).name,
        .kernel (letterKernel 97 1 (by decide)) 0]
      (.kernel (letterKernel 98 40 (by decide)) 0) :=
    (Throughout.concat_iff.mp named.defined).2
  exact absurd (defined _ _ rfl) (by decide)

end GpuSession

end Lo2s
