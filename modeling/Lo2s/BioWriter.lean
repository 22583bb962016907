import Lo2s.Types
import Mathlib.Data.UInt
import Mathlib.Tactic.Common

/-!
# The block I/O writer

`perf::bio::Writer` turns the tracepoints of block devices into the begin, the
issue and the completion of I/O operations.  Its sector cache holds, for each
device and sector, the bytes queued since the last completion.
-/

namespace Lo2s

open Std

/-- A `BlockDevice`, by the `id` it compares with. -/
abbrev BlockDevice := UInt64

def makedev (major minor : UInt32) : BlockDevice :=
  ((major &&& 0x00000fff).toUInt64 <<< 8) |||
    ((major &&& 0xfffff000).toUInt64 <<< 32) |||
    (minor &&& 0x000000ff).toUInt64 |||
    ((minor &&& 0xffffff00).toUInt64 <<< 12)

/-- `block_device_for`: the device number of the kernel has twenty bits for
the minor. -/
def blockDeviceFor (dev : UInt32) : BlockDevice :=
  makedev (dev >>> 20) (dev &&& (((1 : UInt32) <<< 20) - 1))

structure RecordBioQueue where
  time : UInt64
  dev : UInt32
  sector : UInt64
  nrSector : UInt32
  rwbs : Vector UInt8 8
  deriving DecidableEq, Repr

/-- `RecordBlock`, what `write` reads of it. -/
structure RecordBlock where
  time : UInt64
  dev : UInt32
  sector : UInt64
  deriving DecidableEq, Repr

/-- A record with the tracepoint it came from. -/
inductive BioRecord where
  | queue (event : RecordBioQueue)
  | issue (event : RecordBlock)
  | complete (event : RecordBlock)
  | other (tracepoint : String)
  deriving DecidableEq, Repr

/-- The events of block I/O; the handle is the one of the device. -/
inductive BioEvent where
  | ioOperationBegin (tp : TimePoint) (handle : BlockDevice)
      (mode : IoOperationMode) (size : UInt64) (sector : UInt64)
  | ioOperationIssued (tp : TimePoint) (handle : BlockDevice) (sector : UInt64)
  | ioOperationComplete (tp : TimePoint) (handle : BlockDevice)
      (bytes : UInt64) (sector : UInt64)
  deriving DecidableEq, Repr

/-- `std::map<BlockDevice, std::map<uint64_t, uint64_t>>`. -/
abbrev SectorCache := TreeMap BlockDevice (TreeMap UInt64 UInt64)

namespace SectorCache

/-- The map `sector_cache_[dev]` refers to, once it is there. -/
def sectors (dev : BlockDevice) (cache : SectorCache) :
    TreeMap UInt64 UInt64 :=
  cache[dev]?.getD ∅

/-- `sector_cache_[dev]`, which makes an empty map for a new device. -/
def touch (dev : BlockDevice) (cache : SectorCache) : SectorCache :=
  cache.insert dev (cache.sectors dev)

/-- The value of `sector_cache_[dev][sector]`. -/
def bytes (dev : BlockDevice) (sector : UInt64) (cache : SectorCache) :
    UInt64 :=
  (cache.sectors dev)[sector]?.getD 0

/-- `sector_cache_[dev][sector] = value`. -/
def assign (dev : BlockDevice) (sector value : UInt64) (cache : SectorCache) :
    SectorCache :=
  cache.insert dev ((cache.sectors dev).insert sector value)

/-- `sector_cache_.count(dev) != 0`. -/
def hasDevice (dev : BlockDevice) (cache : SectorCache) : Bool :=
  cache.contains dev

/-- `sector_cache_[dev].count(sector) != 0`. -/
def hasSector (dev : BlockDevice) (sector : UInt64) (cache : SectorCache) :
    Bool :=
  (cache.sectors dev).contains sector

@[simp] theorem hasDevice_touch {dev other : BlockDevice}
    {cache : SectorCache} :
    (cache.touch dev).hasDevice other = true ↔
      dev = other ∨ cache.hasDevice other = true := by
  simp [touch, hasDevice, TreeMap.contains_insert]

@[simp] theorem hasDevice_assign {dev other : BlockDevice}
    {sector value : UInt64} {cache : SectorCache} :
    (cache.assign dev sector value).hasDevice other = true ↔
      dev = other ∨ cache.hasDevice other = true := by
  simp [assign, hasDevice, TreeMap.contains_insert]

@[simp] theorem sectors_touch (dev other : BlockDevice) (cache : SectorCache) :
    (cache.touch dev).sectors other = cache.sectors other := by
  by_cases same : dev = other
  · simp [touch, sectors, same]
  · simp [touch, sectors, TreeMap.getElem?_insert, same]

theorem sectors_assign (dev other : BlockDevice) (sector value : UInt64)
    (cache : SectorCache) :
    (cache.assign dev sector value).sectors other =
      if dev = other then (cache.sectors dev).insert sector value
      else cache.sectors other := by
  by_cases same : dev = other
  · simp [assign, sectors, same]
  · simp [assign, sectors, TreeMap.getElem?_insert, same]

theorem hasSector_assign {dev other : BlockDevice}
    {sector otherSector value : UInt64} {cache : SectorCache} :
    (cache.assign dev sector value).hasSector other otherSector = true ↔
      (dev, sector) = (other, otherSector) ∨
        cache.hasSector other otherSector = true := by
  rw [hasSector, sectors_assign, Prod.mk.injEq]
  by_cases same : dev = other
  · subst same
    simp [hasSector, TreeMap.contains_insert]
  · simp [hasSector, same]

theorem bytes_assign (dev other : BlockDevice)
    (sector otherSector value : UInt64) (cache : SectorCache) :
    (cache.assign dev sector value).bytes other otherSector =
      if (dev, sector) = (other, otherSector) then value
      else cache.bytes other otherSector := by
  simp only [bytes, sectors_assign, Prod.mk.injEq]
  by_cases same : dev = other
  · subst same
    by_cases sameSector : sector = otherSector
    · simp [sameSector]
    · simp [TreeMap.getElem?_insert, sameSector]
  · simp [same]

@[simp] theorem hasSector_touch (dev other : BlockDevice) (sector : UInt64)
    (cache : SectorCache) :
    (cache.touch dev).hasSector other sector =
      cache.hasSector other sector := by
  rw [hasSector, sectors_touch, hasSector]

@[simp] theorem bytes_touch (dev other : BlockDevice) (sector : UInt64)
    (cache : SectorCache) :
    (cache.touch dev).bytes other sector = cache.bytes other sector := by
  rw [bytes, sectors_touch, bytes]

end SectorCache

/-- `bio::Writer`.  `events` collects the writers of all devices, in writing
order. -/
structure BioWriter where
  sectorCache : SectorCache
  timeConverter : Converter
  events : List BioEvent

namespace BioWriter

/-- The constructor. -/
def init (timeConverter : Converter) : BioWriter := ⟨∅, timeConverter, []⟩

def sectorSize : UInt32 := 512

/-- `writer << event`. -/
def emit (event : BioEvent) (w : BioWriter) : BioWriter :=
  { w with events := w.events ++ [event] }

/-- The mode a record of the queue is written with; other operations than
reads and writes have none. -/
def mode? (event : RecordBioQueue) : Option IoOperationMode :=
  if event.rwbs[0] = 'R'.toUInt8 then some .read
  else if event.rwbs[0] = 'W'.toUInt8 then some .write
  else none

/-- `event->nr_sector * SECTOR_SIZE`, a product of 32-bit numbers. -/
def sizeOf (event : RecordBioQueue) : UInt64 :=
  (event.nrSector * sectorSize).toUInt64

/-- `write` on a `block_bio_queue` record. -/
def writeQueue (event : RecordBioQueue) (w : BioWriter) : BioWriter :=
  match mode? event with
  | none => w
  | some mode =>
      let dev := blockDeviceFor event.dev
      let size := sizeOf event
      { w with
        sectorCache :=
          w.sectorCache.assign dev event.sector
            (w.sectorCache.bytes dev event.sector + size) }.emit
        (.ioOperationBegin (w.timeConverter.convert event.time) dev mode size
          event.sector)

/-- `write` on a `block_rq_issue` record. -/
def writeIssue (event : RecordBlock) (w : BioWriter) : BioWriter :=
  let dev := blockDeviceFor event.dev
  if !w.sectorCache.hasDevice dev ||
      !w.sectorCache.hasSector dev event.sector then w
  else
    w.emit (.ioOperationIssued (w.timeConverter.convert event.time) dev
      event.sector)

/-- The end of `write` on a `block_rq_complete` record. -/
def emitComplete (event : RecordBlock) (w : BioWriter) : BioWriter :=
  let dev := blockDeviceFor event.dev
  { w with
    sectorCache := w.sectorCache.assign dev event.sector 0 }.emit
    (.ioOperationComplete (w.timeConverter.convert event.time) dev
      (w.sectorCache.bytes dev event.sector) event.sector)

/-- `write` on a `block_rq_complete` record.  The second operand of its `&&`
is evaluated for a new device only, and adds the device to the cache. -/
def writeComplete (event : RecordBlock) (w : BioWriter) : BioWriter :=
  let dev := blockDeviceFor event.dev
  if !w.sectorCache.hasDevice dev then
    let w := { w with sectorCache := w.sectorCache.touch dev }
    if !w.sectorCache.hasSector dev event.sector then w
    else w.emitComplete event
  else w.emitComplete event

def write (w : BioWriter) : BioRecord → Except Failure BioWriter
  | .queue event => .ok (w.writeQueue event)
  | .issue event => .ok (w.writeIssue event)
  | .complete event => .ok (w.writeComplete event)
  | .other tracepoint =>
      .error (.runtimeError
        ("tracepoint " ++ tracepoint ++ " not valid for block I/O"))

end BioWriter

end Lo2s
