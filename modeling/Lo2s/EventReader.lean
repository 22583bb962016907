import Lo2s.Foundation.CircularBuffer
import Lo2s.Foundation.LittleEndian
import Lo2s.Types
import Mathlib.Data.UInt

/-!
# The reader of perf events

The kernel appends records to a circular data area, and `EventReader` takes
them out again.  Both positions are counters that only grow and are reduced
modulo the size of the area.  A record that runs over the end of the area is
put together in a side buffer.
-/

namespace Lo2s

open Foundation

/-- What `read` does with a record, by its type. -/
inductive Dispatch where
  | handleMmap
  | handleMmap2
  | handleSwitch
  | handleSwitchCpuWide
  | handleFork
  | handleSample
  | handleComm
  | handleUnknown
  | countThrottle
  | countLost (offset : Nat)
  | ignore
  deriving DecidableEq, Repr

namespace Dispatch

/-- Whether `handle` is called, which can ask to stop. -/
def calls : Dispatch → Bool
  | .countThrottle => false
  | .countLost _ => false
  | .ignore => false
  | _ => true

end Dispatch

/-- The cases of the `switch` in `read`; `PERF_RECORD_LOST_SAMPLES` has one
only where it has been compiled in. -/
def dispatch (hasLostSamples : Bool) (type : UInt32) : Dispatch :=
  match type with
  | 1 => .handleMmap
  | 10 => .handleMmap2
  | 14 => .handleSwitch
  | 15 => .handleSwitchCpuWide
  | 5 => .countThrottle
  | 6 => .countThrottle
  | 2 => .countLost 16
  | 13 => if hasLostSamples then .countLost 8 else .handleUnknown
  | 4 => .ignore
  | 7 => .handleFork
  | 9 => .handleSample
  | 3 => .handleComm
  | _ => .handleUnknown

/-- A record of the kernel.  Its header has the type in its first four bytes
and the size in its last two; a record about lost samples has their number. -/
structure PerfRecord where
  bytes : List UInt8
  size_eq : ofLittleEndian ((bytes.drop 6).take 2) = bytes.length
  hasHeader : 8 ≤ bytes.length
  aligned : bytes.length % 8 = 0
  hasLost : ∀ offset,
    dispatch true (UInt32.ofNat (ofLittleEndian (bytes.take 4))) =
      .countLost offset → offset + 8 ≤ bytes.length

namespace PerfRecord

/-- `header.type`. -/
def type (record : PerfRecord) : UInt32 :=
  UInt32.ofNat (ofLittleEndian (record.bytes.take 4))

/-- The eight bytes at an offset. -/
def field (record : PerfRecord) (offset : Nat) : UInt64 :=
  UInt64.ofNat (ofLittleEndian ((record.bytes.drop offset).take 8))

end PerfRecord

/-- The extent of the data area, `mmap_pages_` pages that have been mapped. -/
structure PerfMapping where
  mmapPages : UInt64
  pageSize : UInt64
  positive : 0 < mmapPages.toNat * pageSize.toNat
  aligned : pageSize.toNat % 8 = 0
  mapped : mmapPages.toNat * pageSize.toNat < 2 ^ 63

def PerfMapping.dataSize (mapping : PerfMapping) : UInt64 :=
  mapping.mmapPages * mapping.pageSize

def perfSampleMaxSize : Nat := 65536

/-- `EventReader`, with the two counters of the mapped header and the data
area behind it. -/
structure EventReader where
  mapping : PerfMapping
  dataHead : UInt64
  dataTail : UInt64
  data : Circular UInt8
  eventCopy : Nat → UInt8
  throttleSamples : Int64
  lostSamples : Int64

/-- Where a pointer to a record points to: an index of the data area, or
`event_copy`. -/
inductive RecordPointer where
  | inData (index : Nat)
  | inCopy
  deriving DecidableEq, Repr

namespace EventReader

/-- The reader of a new mapping. -/
def init (mapping : PerfMapping) (data : Circular UInt8)
    (eventCopy : Nat → UInt8) : EventReader :=
  ⟨mapping, 0, 0, data, eventCopy, 0, 0⟩

/-- `data_size`, as a number. -/
def size (r : EventReader) : Nat := r.mapping.dataSize.toNat

def empty (r : EventReader) : Bool := r.dataHead == r.dataTail

/-- Reading through a pointer, which faults outside the buffer it points
into. -/
def load (pointer : RecordPointer) (offset len : Nat) (r : EventReader) :
    Except Failure (List UInt8) :=
  match pointer with
  | .inData index =>
      if index + offset + len ≤ r.size then
        .ok (r.data.window r.size (index + offset) len)
      else .error .invalidAccess
  | .inCopy =>
      if offset + len ≤ perfSampleMaxSize then
        .ok ((List.range len).map fun i => r.eventCopy (offset + i))
      else .error .invalidAccess

/-- `header->size`. -/
def loadSize (pointer : RecordPointer) (r : EventReader) :
    Except Failure Nat :=
  (r.load pointer 6 2).map ofLittleEndian

/-- `header->type`. -/
def loadType (pointer : RecordPointer) (r : EventReader) :
    Except Failure UInt32 :=
  (r.load pointer 0 4).map fun bytes => UInt32.ofNat (ofLittleEndian bytes)

/-- A field of eight bytes. -/
def loadField (pointer : RecordPointer) (offset : Nat) (r : EventReader) :
    Except Failure UInt64 :=
  (r.load pointer offset 8).map fun bytes => UInt64.ofNat (ofLittleEndian bytes)

/-- `event_copy` after the end of the area and then its beginning have been
copied there. -/
def copied (index len : Nat) (r : EventReader) : Nat → UInt8 :=
  let beforeWrap := r.size - index
  fun i =>
    if i < beforeWrap then r.data (index + i)
    else if i < len then r.data (i - beforeWrap)
    else r.eventCopy i

/-- The two calls of `memcpy`. -/
def copyAround (index len : Nat) (r : EventReader) :
    Except Failure EventReader :=
  let beforeWrap := r.size - index
  let afterWrap := len - beforeWrap
  if len ≤ perfSampleMaxSize ∧ afterWrap ≤ r.size then
    .ok { r with eventCopy := r.copied index len }
  else .error .invalidAccess

/-- The two assertions of `get`. -/
def checkPositions (r : EventReader) : Except Failure Unit :=
  if r.dataHead < r.dataTail then .error (.assertion "cur_tail <= cur_head")
  else if r.mapping.dataSize < r.dataHead - r.dataTail then
    .error (.assertion "cur_head - cur_tail <= data_size()")
  else .ok ()

def get (r : EventReader) : Except Failure (RecordPointer × EventReader) := do
  r.checkPositions
  let index := (r.dataTail % r.mapping.dataSize).toNat
  let len ← r.loadSize (.inData index)
  -- The event spans the end of the area.
  if r.size < index + len then
    let r ← r.copyAround index len
    return (.inCopy, r)
  else return (.inData index, r)

/-- `pop`, which gets the event again for its size. -/
def pop (r : EventReader) : Except Failure EventReader := do
  let (pointer, r) ← r.get
  let len ← r.loadSize pointer
  return { r with dataTail := r.dataTail + UInt64.ofNat len }

/-- `lost_samples += lost->lost`. -/
def countLost (lost : UInt64) (r : EventReader) : EventReader :=
  { r with lostSamples := (r.lostSamples.toUInt64 + lost).toInt64 }

/-- The `switch` in `read` on the record behind a pointer, without the calls
of `handle`. -/
def dispatchRecord (hasLostSamples : Bool) (pointer : RecordPointer)
    (r : EventReader) : Except Failure (Dispatch × EventReader) := do
  let type ← r.loadType pointer
  match dispatch hasLostSamples type with
  | .countThrottle =>
      return (.countThrottle,
        { r with throttleSamples := r.throttleSamples + 1 })
  | .countLost offset =>
      let lost ← r.loadField pointer offset
      return (.countLost offset, r.countLost lost)
  | other => return (other, r)

end EventReader

/-- Where the reader is in a call of `read`. -/
inductive ReadPhase where
  | idle
  | checking
  | fetching
  | fetched (pointer : RecordPointer)
  | handled (stop : Bool)
  deriving DecidableEq, Repr

/-- How a record has been taken out: by `read`, which has dispatched it as it
was then in memory, or by a `pop` alone. -/
inductive Taken where
  | dispatched (way : Dispatch) (bytes : List UInt8)
  | popped
  deriving DecidableEq, Repr

/-- A reader at work, with the records the kernel has appended, the ones that
have been taken out, and what each `get` has found after how many of them. -/
structure ReadSession where
  reader : EventReader
  phase : ReadPhase
  appended : List PerfRecord
  taken : List Taken
  got : List (Nat × List UInt8)

/-- What can happen next: the kernel appends a record, the reader is used, or
its `read` goes on, where the handler of a record can ask to stop. -/
inductive ReadInput where
  | append (record : PerfRecord)
  | get
  | pop
  | read
  | advance (stop : Bool)

namespace ReadSession

/-- A session with a new mapping. -/
def init (mapping : PerfMapping) (data : Circular UInt8)
    (eventCopy : Nat → UInt8) : ReadSession :=
  ⟨.init mapping data eventCopy, .idle, [], [], []⟩

/-- The kernel writes a record behind the others and then moves the head. -/
def append (record : PerfRecord) (s : ReadSession) : ReadSession :=
  { s with
    reader := { s.reader with
      data := s.reader.data.write s.reader.size s.reader.dataHead.toNat
        record.bytes
      dataHead := s.reader.dataHead + UInt64.ofNat record.bytes.length }
    appended := s.appended ++ [record] }

/-- The bytes of the record behind a pointer. -/
def loadRecord (pointer : RecordPointer) (r : EventReader) :
    Except Failure (List UInt8) := do
  let len ← r.loadSize pointer
  r.load pointer 0 len

/-- `get` and a look at the record. -/
def get (s : ReadSession) : Except Failure ReadSession := do
  let (pointer, reader) ← s.reader.get
  let bytes ← loadRecord pointer reader
  return { s with
    reader := reader
    got := s.got ++ [(s.taken.length, bytes)] }

/-- `pop` outside of `read`. -/
def pop (s : ReadSession) : Except Failure ReadSession := do
  let reader ← s.reader.pop
  return { s with
    reader := reader
    taken := s.taken ++ [.popped] }

/-- The next step of `read`. -/
def advance (hasLostSamples stop : Bool) (s : ReadSession) :
    Except Failure ReadSession :=
  match s.phase with
  | .idle => .ok s
  | .checking =>
      .ok { s with phase := if s.reader.empty then .idle else .fetching }
  | .fetching => do
      let (pointer, reader) ← s.reader.get
      return { s with
        reader := reader
        phase := .fetched pointer }
  | .fetched pointer => do
      let bytes ← loadRecord pointer s.reader
      let (way, reader) ← s.reader.dispatchRecord hasLostSamples pointer
      return { s with
        reader := reader
        phase := .handled (way.calls && stop)
        taken := s.taken ++ [.dispatched way bytes] }
  | .handled stop => do
      let reader ← s.reader.pop
      return { s with
        reader := reader
        phase := if stop then .idle else .checking }

/-- The session after an input. -/
def step (hasLostSamples : Bool) (s : ReadSession) :
    ReadInput → Except Failure ReadSession
  | .append record => .ok (s.append record)
  | .get => s.get
  | .pop => s.pop
  | .read => .ok { s with phase := .checking }
  | .advance stop => s.advance hasLostSamples stop

end ReadSession

end Lo2s
