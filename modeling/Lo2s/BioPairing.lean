import Lo2s.BioWriter
import Lo2s.Foundation.Pairing
import Lo2s.Foundation.Run

/-!
# Pairing of block I/O operations

An issue or a completion belongs to the begins of its device and sector since
the last completion there.  The writer keeps this pairing as long as no issue
comes between a completion and the next begin of a sector that has been used,
and no completion without a begin comes to a device the cache knows.
-/

namespace Lo2s

open Foundation

/-- A device and a sector of it. -/
abbrev DeviceSector := BlockDevice × UInt64

namespace RecordBlock

def deviceSector (event : RecordBlock) : DeviceSector :=
  (blockDeviceFor event.dev, event.sector)

end RecordBlock

namespace RecordBioQueue

def deviceSector (event : RecordBioQueue) : DeviceSector :=
  (blockDeviceFor event.dev, event.sector)

end RecordBioQueue

/-- What a record does to the operation of its device and sector; the queueing
of anything but a read or a write does nothing. -/
def BioRecord.stage? : BioRecord → Option (Stage DeviceSector UInt64)
  | .queue event =>
      (BioWriter.mode? event).map fun _ =>
        .opened event.deviceSector (BioWriter.sizeOf event)
  | .issue event => some (.used event.deviceSector)
  | .complete event => some (.closed event.deviceSector)
  | .other _ => none

def BioEvent.stage : BioEvent → Stage DeviceSector UInt64
  | .ioOperationBegin _ handle _ size sector => .opened (handle, sector) size
  | .ioOperationIssued _ handle sector => .used (handle, sector)
  | .ioOperationComplete _ handle _ sector => .closed (handle, sector)

/-- The sum of byte counts, as a number. -/
def totalBytes (sizes : List UInt64) : Nat := (sizes.map UInt64.toNat).sum

/-- An issue or a completion has a begin since the last completion, and a
completion has the bytes of all of them. -/
def BioEvent.Matched (earlier : List BioEvent) : BioEvent → Prop
  | .ioOperationBegin _ _ _ _ _ => True
  | .ioOperationIssued _ handle sector =>
      pending (handle, sector) (earlier.map stage) ≠ []
  | .ioOperationComplete _ handle bytes sector =>
      pending (handle, sector) (earlier.map stage) ≠ [] ∧
        bytes.toNat = totalBytes (pending (handle, sector) (earlier.map stage))

/-- All events are matched. -/
abbrev Paired (events : List BioEvent) : Prop :=
  Throughout BioEvent.Matched events

/-- The stages of a sequence of records. -/
def stages (records : List BioRecord) : List (Stage DeviceSector UInt64) :=
  records.filterMap BioRecord.stage?

/-- A read or write has been queued for the device and sector. -/
def QueuedBefore (key : DeviceSector)
    (seen : List (Stage DeviceSector UInt64)) : Prop :=
  ∃ size, .opened key size ∈ seen

/-- A read or write has been queued for the device, or anything completed. -/
def DeviceKnown (dev : BlockDevice)
    (seen : List (Stage DeviceSector UInt64)) : Prop :=
  ∃ sector, QueuedBefore (dev, sector) seen ∨ .closed (dev, sector) ∈ seen

/-- An issue of a sector that has been queued, and a completion on a device
that is known, has a read or write queued since the last completion; and the
bytes of a completion fit into 64 bits. -/
def BioRecord.Expected (earlier : List BioRecord) : BioRecord → Prop
  | .issue event =>
      QueuedBefore event.deviceSector (stages earlier) →
        pending event.deviceSector (stages earlier) ≠ []
  | .complete event =>
      DeviceKnown (blockDeviceFor event.dev) (stages earlier) →
        pending event.deviceSector (stages earlier) ≠ [] ∧
          totalBytes (pending event.deviceSector (stages earlier)) < 2 ^ 64
  | _ => True

/-- The record comes from a tracepoint of block I/O. -/
def BioRecord.isBlockIo : BioRecord → Bool
  | .other _ => false
  | _ => true

theorem stages_concat (records : List BioRecord) (record : BioRecord) :
    stages (records ++ [record]) = stages records ++ record.stage?.toList := by
  cases staged : record.stage? <;> simp [stages, staged]

theorem queuedBefore_concat {key : DeviceSector}
    {seen : List (Stage DeviceSector UInt64)}
    {stage : Stage DeviceSector UInt64} :
    QueuedBefore key (seen ++ [stage]) ↔
      QueuedBefore key seen ∨ ∃ size, stage = .opened key size := by
  simp only [QueuedBefore, List.mem_append, List.mem_singleton, exists_or,
    eq_comm]

theorem deviceKnown_concat {dev : BlockDevice}
    {seen : List (Stage DeviceSector UInt64)}
    {stage : Stage DeviceSector UInt64} :
    DeviceKnown dev (seen ++ [stage]) ↔
      DeviceKnown dev seen ∨ ∃ sector,
        (∃ size, stage = .opened (dev, sector) size) ∨
          stage = .closed (dev, sector) := by
  simp only [DeviceKnown, queuedBefore_concat, List.mem_append,
    List.mem_singleton, ← exists_or, eq_comm]
  apply exists_congr
  intro sector
  tauto

theorem QueuedBefore.deviceKnown {key : DeviceSector}
    {seen : List (Stage DeviceSector UInt64)}
    (queued : QueuedBefore key seen) : DeviceKnown key.1 seen :=
  ⟨key.2, .inl queued⟩

theorem queuedBefore_of_pending {key : DeviceSector}
    {seen : List (Stage DeviceSector UInt64)}
    (isOpen : pending key seen ≠ []) : QueuedBefore key seen := by
  obtain ⟨size, member⟩ := List.exists_mem_of_ne_nil _ isOpen
  exact ⟨size, opened_of_pending member⟩

theorem toNat_sum (sizes : List UInt64) :
    sizes.sum.toNat = totalBytes sizes % 2 ^ 64 := by
  induction sizes with
  | nil => rfl
  | cons size sizes induction =>
      rw [List.sum_cons, UInt64.toNat_add, induction]
      simp only [totalBytes, List.map_cons, List.sum_cons]
      omega

namespace BioWriter

/-- The cache and the events tell the same as the stages seen so far. -/
structure Linked (seen : List (Stage DeviceSector UInt64)) (w : BioWriter) :
    Prop where
  pending : ∀ key, Foundation.pending key (w.events.map BioEvent.stage) =
    Foundation.pending key seen
  known : ∀ dev, w.sectorCache.hasDevice dev = true ↔ DeviceKnown dev seen
  present : ∀ key : DeviceSector,
    w.sectorCache.hasSector key.1 key.2 = true ↔ QueuedBefore key seen
  stored : ∀ key : DeviceSector,
    w.sectorCache.bytes key.1 key.2 = (Foundation.pending key seen).sum

theorem Linked.init (timeConverter : Converter) :
    Linked [] (init timeConverter) where
  pending := fun _ => rfl
  known := by
    intro dev
    simp [BioWriter.init, SectorCache.hasDevice, DeviceKnown, QueuedBefore]
  present := by
    intro key
    simp [BioWriter.init, SectorCache.hasSector, SectorCache.sectors,
      QueuedBefore]
  stored := by
    intro key
    simp [BioWriter.init, SectorCache.bytes, SectorCache.sectors]

theorem Linked.queue {seen : List (Stage DeviceSector UInt64)} {w : BioWriter}
    (linked : Linked seen w) (dev : BlockDevice) (sector size : UInt64)
    (event : BioEvent) (stage : event.stage = .opened (dev, sector) size) :
    Linked (seen ++ [.opened (dev, sector) size])
      ({ w with
        sectorCache := w.sectorCache.assign dev sector
          (w.sectorCache.bytes dev sector + size) }.emit event) := by
  constructor
  case pending =>
    intro key
    simp only [emit, List.map_append, List.map_cons, List.map_nil,
      pending_concat, stage, linked.pending]
  case known =>
    intro other
    rw [deviceKnown_concat, ← linked.known]
    simp only [emit, SectorCache.hasDevice_assign, Stage.opened.injEq,
      Prod.mk.injEq, reduceCtorEq, or_false]
    constructor
    · intro either
      rcases either with same | known
      · exact .inr ⟨sector, size, ⟨same, rfl⟩, rfl⟩
      · exact .inl known
    · intro either
      rcases either with known | ⟨_, _, ⟨same, _⟩, _⟩
      · exact .inr known
      · exact .inl same
  case present =>
    intro key
    rw [queuedBefore_concat, ← linked.present]
    simp only [emit, SectorCache.hasSector_assign, Stage.opened.injEq]
    constructor
    · intro either
      rcases either with same | present
      · exact .inr ⟨size, same, rfl⟩
      · exact .inl present
    · intro either
      rcases either with present | ⟨_, same, _⟩
      · exact .inr present
      · exact .inl same
  case stored =>
    intro key
    simp only [emit, SectorCache.bytes_assign, pending_concat, Stage.apply]
    by_cases same : (dev, sector) = key
    · subst same
      simp [linked.stored (dev, sector)]
    · have different : ¬ (dev, sector) = (key.1, key.2) := same
      rw [if_neg different, if_neg same]
      exact linked.stored key

theorem Linked.used {seen : List (Stage DeviceSector UInt64)} {w next : BioWriter}
    (linked : Linked seen w) (key : DeviceSector)
    (sectorCache : next.sectorCache = w.sectorCache)
    (events : next.events = w.events ∨ ∃ event : BioEvent,
      next.events = w.events ++ [event] ∧ event.stage = .used key) :
    Linked (seen ++ [.used key]) next := by
  constructor
  case pending =>
    intro other
    rw [pending_concat, ← linked.pending]
    rcases events with same | ⟨event, added, stage⟩
    · rw [same]
      rfl
    · rw [added, List.map_append, List.map_cons, List.map_nil, pending_concat,
        stage]
  case known =>
    intro dev
    rw [sectorCache, deviceKnown_concat, linked.known]
    simp
  case present =>
    intro other
    rw [sectorCache, queuedBefore_concat, linked.present]
    simp
  case stored =>
    intro other
    rw [sectorCache, pending_concat]
    exact linked.stored other

theorem Linked.closed {seen : List (Stage DeviceSector UInt64)} {w : BioWriter}
    (linked : Linked seen w) (event : RecordBlock)
    (isOpen : Foundation.pending event.deviceSector seen ≠ []) :
    Linked (seen ++ [.closed event.deviceSector]) (w.emitComplete event) := by
  have queued := queuedBefore_of_pending isOpen
  constructor
  case pending =>
    intro key
    simp only [emitComplete, emit, List.map_append, List.map_cons,
      List.map_nil, pending_concat, linked.pending]
    rfl
  case known =>
    intro dev
    rw [deviceKnown_concat, ← linked.known]
    simp only [emitComplete, emit, SectorCache.hasDevice_assign,
      RecordBlock.deviceSector, reduceCtorEq, exists_false, false_or,
      Stage.closed.injEq, Prod.mk.injEq]
    constructor
    · intro either
      rcases either with same | known
      · exact .inr ⟨event.sector, same, rfl⟩
      · exact .inl known
    · intro either
      rcases either with known | ⟨_, same, _⟩
      · exact .inr known
      · exact .inl same
  case present =>
    intro key
    rw [queuedBefore_concat, ← linked.present]
    simp only [emitComplete, emit, SectorCache.hasSector_assign, reduceCtorEq,
      exists_false, or_false]
    constructor
    · intro either
      rcases either with same | present
      · have sameKey : event.deviceSector = key := same
        exact (linked.present key).mpr (sameKey ▸ queued)
      · exact present
    · exact .inr
  case stored =>
    intro key
    simp only [emitComplete, emit, SectorCache.bytes_assign, pending_concat,
      Stage.apply]
    by_cases same : event.deviceSector = key
    · have sameParts : (blockDeviceFor event.dev, event.sector) =
          (key.1, key.2) := same
      rw [if_pos sameParts, if_pos same]
      rfl
    · have different : ¬ (blockDeviceFor event.dev, event.sector) =
          (key.1, key.2) := same
      rw [if_neg different, if_neg same]
      exact linked.stored key

theorem Linked.touched {seen : List (Stage DeviceSector UInt64)} {w : BioWriter}
    (linked : Linked seen w) (event : RecordBlock)
    (unknown : ¬ DeviceKnown (blockDeviceFor event.dev) seen) :
    Linked (seen ++ [.closed event.deviceSector])
      { w with
        sectorCache := w.sectorCache.touch (blockDeviceFor event.dev) } := by
  have nothingOpen : Foundation.pending event.deviceSector seen = [] := by
    by_contra isOpen
    exact unknown (queuedBefore_of_pending isOpen).deviceKnown
  have same : ∀ key, Foundation.pending key
      (seen ++ [.closed event.deviceSector]) = Foundation.pending key seen := by
    intro key
    rw [pending_concat, Stage.apply]
    by_cases same : event.deviceSector = key
    · rw [if_pos same, ← same, nothingOpen]
    · rw [if_neg same]
  constructor
  case pending =>
    intro key
    rw [same]
    exact linked.pending key
  case known =>
    intro dev
    rw [deviceKnown_concat, ← linked.known]
    simp only [SectorCache.hasDevice_touch, RecordBlock.deviceSector,
      reduceCtorEq, exists_false, false_or, Stage.closed.injEq, Prod.mk.injEq]
    constructor
    · intro either
      rcases either with sameDev | known
      · exact .inr ⟨event.sector, sameDev, rfl⟩
      · exact .inl known
    · intro either
      rcases either with known | ⟨_, sameDev, _⟩
      · exact .inr known
      · exact .inl sameDev
  case present =>
    intro key
    rw [queuedBefore_concat, ← linked.present]
    simp
  case stored =>
    intro key
    rw [same]
    simpa using linked.stored key

/-- A record keeps the events paired exactly when it is expected, and then
keeps the link to the cache. -/
structure Answered (records : List BioRecord) (record : BioRecord)
    (next : BioWriter) : Prop where
  paired : Paired next.events ↔ record.Expected records
  linked : record.Expected records →
    Linked (stages (records ++ [record])) next

theorem writeQueue_answered {records : List BioRecord} {w : BioWriter}
    (linked : Linked (stages records) w) (paired : Paired w.events)
    (event : RecordBioQueue) :
    Answered records (.queue event) (w.writeQueue event) := by
  cases mode : mode? event with
  | none =>
      have unchanged : w.writeQueue event = w := by simp [writeQueue, mode]
      have silent : (BioRecord.queue event).stage? = none := by
        simp [BioRecord.stage?, mode]
      rw [unchanged]
      constructor
      case paired => exact iff_of_true paired trivial
      case linked =>
        intro _
        rw [stages_concat, silent]
        simpa using linked
  | some ioMode =>
      have staged : (BioRecord.queue event).stage? =
          some (.opened event.deviceSector (sizeOf event)) := by
        simp [BioRecord.stage?, mode]
      have next := linked.queue (blockDeviceFor event.dev) event.sector
        (sizeOf event)
        (.ioOperationBegin (w.timeConverter.convert event.time)
          (blockDeviceFor event.dev) ioMode (sizeOf event) event.sector) rfl
      simp only [writeQueue, mode]
      constructor
      case paired =>
        apply iff_of_true _ trivial
        exact Throughout.concat_iff.mpr ⟨paired, trivial⟩
      case linked =>
        intro _
        rw [stages_concat, staged]
        exact next

theorem writeIssue_answered {records : List BioRecord} {w : BioWriter}
    (linked : Linked (stages records) w) (paired : Paired w.events)
    (event : RecordBlock) :
    Answered records (.issue event) (w.writeIssue event) := by
  have staged : stages (records ++ [.issue event]) =
      stages records ++ [.used event.deviceSector] := stages_concat _ _
  by_cases queued : QueuedBefore event.deviceSector (stages records)
  · have hasDevice := (linked.known _).mpr queued.deviceKnown
    have hasSector := (linked.present _).mpr queued
    have written : w.writeIssue event = w.emit (.ioOperationIssued
        (w.timeConverter.convert event.time) (blockDeviceFor event.dev)
        event.sector) := by
      simp only [RecordBlock.deviceSector] at hasDevice hasSector
      simp [writeIssue, hasDevice, hasSector]
    rw [written]
    constructor
    case paired =>
      apply Throughout.concat_iff.trans
      simp only [BioEvent.Matched, linked.pending, BioRecord.Expected]
      exact ⟨fun both _ => both.2, fun expected => ⟨paired, expected queued⟩⟩
    case linked =>
      intro _
      rw [staged]
      exact linked.used _ rfl (.inr ⟨_, rfl, rfl⟩)
  · have unchanged : w.writeIssue event = w := by
      have noSector := mt (linked.present event.deviceSector).mp queued
      simp only [RecordBlock.deviceSector, Bool.not_eq_true] at noSector
      simp [writeIssue, noSector]
    rw [unchanged]
    constructor
    case paired =>
      exact iff_of_true paired fun isQueued => absurd isQueued queued
    case linked =>
      intro _
      rw [staged]
      exact linked.used _ rfl (.inl rfl)

theorem writeComplete_unknown {seen : List (Stage DeviceSector UInt64)}
    {w : BioWriter} (linked : Linked seen w) {event : RecordBlock}
    (unknown : ¬ DeviceKnown (blockDeviceFor event.dev) seen) :
    w.writeComplete event =
      { w with
        sectorCache := w.sectorCache.touch (blockDeviceFor event.dev) } := by
  have noDevice := mt (linked.known _).mp unknown
  have noSector : ¬ w.sectorCache.hasSector (blockDeviceFor event.dev)
      event.sector = true := by
    intro hasSector
    exact unknown ((linked.present event.deviceSector).mp hasSector).deviceKnown
  simp only [Bool.not_eq_true] at noDevice noSector
  simp [writeComplete, noDevice, noSector]

theorem writeComplete_answered {records : List BioRecord} {w : BioWriter}
    (linked : Linked (stages records) w) (paired : Paired w.events)
    (event : RecordBlock) :
    Answered records (.complete event) (w.writeComplete event) := by
  have staged : stages (records ++ [.complete event]) =
      stages records ++ [.closed event.deviceSector] := stages_concat _ _
  by_cases known : DeviceKnown (blockDeviceFor event.dev) (stages records)
  · have hasDevice := (linked.known _).mpr known
    have written : w.writeComplete event = w.emitComplete event := by
      simp [writeComplete, hasDevice]
    have stored := linked.stored event.deviceSector
    have sum : (w.sectorCache.bytes (blockDeviceFor event.dev)
          event.sector).toNat =
        totalBytes (Foundation.pending event.deviceSector (stages records)) %
          2 ^ 64 := by
      rw [← toNat_sum, ← stored]
      rfl
    rw [written]
    constructor
    case paired =>
      apply Throughout.concat_iff.trans
      simp only [BioEvent.Matched, linked.pending, BioRecord.Expected, sum]
      -- The sum modulo `2 ^ 64` is the sum when it is smaller.
      constructor
      · intro holds _
        obtain ⟨_, isOpen, fits⟩ := holds
        refine ⟨isOpen, ?_⟩
        have bound := Nat.mod_lt (totalBytes (Foundation.pending
          event.deviceSector (stages records))) (Nat.two_pow_pos 64)
        rw [fits] at bound
        exact bound
      · intro expected
        obtain ⟨isOpen, small⟩ := expected known
        exact ⟨paired, isOpen, Nat.mod_eq_of_lt small⟩
    case linked =>
      intro expected
      rw [staged]
      exact linked.closed event (expected known).1
  · rw [writeComplete_unknown linked known]
    constructor
    case paired =>
      exact iff_of_true paired fun isKnown => absurd isKnown known
    case linked =>
      intro _
      rw [staged]
      exact linked.touched event known

theorem write_answered {records : List BioRecord} {w : BioWriter}
    (linked : Linked (stages records) w) (paired : Paired w.events)
    {record : BioRecord} (blockIo : record.isBlockIo) :
    ∃ next, w.write record = .ok next ∧ Answered records record next := by
  cases record with
  | queue event => exact ⟨_, rfl, writeQueue_answered linked paired event⟩
  | issue event => exact ⟨_, rfl, writeIssue_answered linked paired event⟩
  | complete event =>
      exact ⟨_, rfl, writeComplete_answered linked paired event⟩
  | other tracepoint => cases blockIo

theorem write_keeps {w next : BioWriter} {record : BioRecord}
    (written : w.write record = .ok next) : w.events <+: next.events := by
  cases record with
  | queue event =>
      cases written
      cases mode : mode? event with
      | none => simp [writeQueue, mode]
      | some ioMode => simp [writeQueue, mode, emit]
  | issue event =>
      cases written
      simp only [writeIssue]
      split
      · exact List.prefix_rfl
      · exact List.prefix_append _ _
  | complete event =>
      cases written
      simp only [writeComplete]
      split
      · split
        · exact List.prefix_rfl
        · exact List.prefix_append _ _
      · exact List.prefix_append _ _
  | other tracepoint => cases written

/-- A completion whose begin has not been recorded writes nothing. -/
def SilentWithoutBegin (timeConverter : Converter) (records : List BioRecord) :
    Prop :=
  ∀ earlier event, earlier ++ [.complete event] <+: records →
    pending event.deviceSector (stages earlier) = [] →
      ∀ w, run write (init timeConverter) earlier = .ok w →
        (w.writeComplete event).events = w.events

/-- The run up to any point: as long as the events are paired, the records
have been expected, and the cache is linked to them. -/
theorem run_answered (timeConverter : Converter) (records : List BioRecord)
    (blockIo : ∀ record ∈ records, record.isBlockIo) :
    ∃ w, run write (init timeConverter) records = .ok w ∧
      (Paired w.events ↔ Throughout BioRecord.Expected records) ∧
        (Paired w.events → Linked (stages records) w) := by
  induction records using List.reverseRecOn with
  | nil =>
      refine ⟨_, rfl, iff_of_true Throughout.nil Throughout.nil, ?_⟩
      exact fun _ => .init timeConverter
  | append_singleton records record induction =>
      have recordBlockIo := blockIo record (by simp)
      obtain ⟨w, reached, paired, linked⟩ := induction
        fun other member => blockIo other (List.mem_append_left _ member)
      have total : ∃ next, w.write record = .ok next := by
        cases record with
        | other tracepoint => cases recordBlockIo
        | _ => exact ⟨_, rfl⟩
      obtain ⟨next, written⟩ := total
      refine ⟨next, by rw [run_concat, reached]; exact written, ?_⟩
      by_cases pairedSoFar : Paired w.events
      · obtain ⟨same, sameWritten, answered⟩ :=
          write_answered (linked pairedSoFar) pairedSoFar recordBlockIo
        rw [written, Except.ok.injEq] at sameWritten
        subst sameWritten
        refine ⟨?_, fun holds => answered.linked (answered.paired.mp holds)⟩
        rw [Throughout.concat_iff, answered.paired]
        exact ⟨fun expected => ⟨paired.mp pairedSoFar, expected⟩, And.right⟩
      · have broken : ¬ Paired next.events :=
          fun holds => pairedSoFar (holds.earlier (write_keeps written))
        refine ⟨iff_of_false broken ?_, fun holds => absurd holds broken⟩
        rw [Throughout.concat_iff, ← paired]
        exact fun both => pairedSoFar both.1

theorem silent_of_expected {timeConverter : Converter}
    {records : List BioRecord}
    (blockIo : ∀ record ∈ records, record.isBlockIo)
    (expected : Throughout BioRecord.Expected records) :
    SilentWithoutBegin timeConverter records := by
  intro earlier event within nothingOpen w reached
  have start : earlier <+: records :=
    (List.prefix_append earlier _).trans within
  obtain ⟨same, sameReached, paired, linked⟩ :=
    run_answered timeConverter earlier
      fun record member => blockIo record (start.subset member)
  rw [reached, Except.ok.injEq] at sameReached
  subst sameReached
  have unknown : ¬ DeviceKnown (blockDeviceFor event.dev) (stages earlier) :=
    fun known => (expected earlier _ within known).1 nothingOpen
  rw [writeComplete_unknown
    (linked (paired.mpr (expected.earlier start))) unknown]

/-- Block I/O operations are paired exactly when every record is expected. -/
theorem paired_iff (timeConverter : Converter) (records : List BioRecord)
    (blockIo : ∀ record ∈ records, record.isBlockIo) :
    ∃ w, run write (init timeConverter) records = .ok w ∧
      (Paired w.events ∧ SilentWithoutBegin timeConverter records ↔
        Throughout BioRecord.Expected records) := by
  obtain ⟨w, reached, paired, _⟩ := run_answered timeConverter records blockIo
  refine ⟨w, reached, ?_⟩
  constructor
  · exact fun both => paired.mp both.1
  · exact fun expected =>
      ⟨paired.mpr expected, silent_of_expected blockIo expected⟩

/-- One write and its completion. -/
theorem paired_iff_oneWrite :
    ∃ w, run write (init ⟨0⟩)
        [.queue ⟨1, 0x800000, 64, 1, #v[87, 0, 0, 0, 0, 0, 0, 0]⟩,
          .complete ⟨2, 0x800000, 64⟩] = .ok w ∧
      (Paired w.events ∧ SilentWithoutBegin ⟨0⟩
          [.queue ⟨1, 0x800000, 64, 1, #v[87, 0, 0, 0, 0, 0, 0, 0]⟩,
            .complete ⟨2, 0x800000, 64⟩] ↔
        Throughout BioRecord.Expected
          [.queue ⟨1, 0x800000, 64, 1, #v[87, 0, 0, 0, 0, 0, 0, 0]⟩,
            .complete ⟨2, 0x800000, 64⟩]) :=
  paired_iff ⟨0⟩ _ (by decide)

/-- Two completions without any begin: the second one is written. -/
theorem second_completion_written :
    ∃ w, run write (init ⟨0⟩)
        [.complete ⟨1, 0x800000, 64⟩, .complete ⟨2, 0x800000, 64⟩] = .ok w ∧
      w.events = [.ioOperationComplete 2 0x800 0 64] ∧ ¬ Paired w.events := by
  refine ⟨_, rfl, rfl, ?_⟩
  intro paired
  exact (paired [] _ List.prefix_rfl).1 rfl

end BioWriter

end Lo2s
