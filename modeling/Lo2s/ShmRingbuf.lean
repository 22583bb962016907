import Lo2s.Foundation.CircularBuffer
import Lo2s.Foundation.LittleEndian
import Lo2s.Types
import Mathlib.Data.UInt

/-!
# The shared-memory ring buffer

One writer and one reader exchange events through a ring buffer that is mapped
twice, back to back, so that an event which runs over its end can be accessed
in one piece.  Events start with a header that holds their size, and take up
their size rounded up to a multiple of eight.

Pointers into the mapping are kept as offsets from `start_`, which is the start
of a page.
-/

namespace Lo2s

open Foundation

/-- `ringbuf_header`, as far as `ShmRingbuf` uses it. -/
structure RingbufHeader where
  size : UInt64
  head : UInt64
  tail : UInt64
  deriving DecidableEq, Repr

/-- `ShmRingbuf`: the header and the memory that is mapped twice. -/
structure ShmRingbuf where
  header : RingbufHeader
  memory : Circular UInt8

namespace ShmRingbuf

/-- `(ev_size + 7) & ~7`. -/
def roundUp (evSize : UInt64) : UInt64 := (evSize + 7) &&& ~~~7

/-- The two assertions behind the loads of head and tail. -/
def misaligned? (rb : ShmRingbuf) : Option Failure :=
  if rb.header.tail % 8 ≠ 0 then some (.assertion "tail % 8 == 0")
  else if rb.header.head % 8 ≠ 0 then some (.assertion "head % 8 == 0")
  else none

/-- The check of a pointer before it is returned. -/
def alignedPointer (res : UInt64) : Except Failure (Option UInt64) :=
  if res % 8 ≠ 0 then .error (.runtimeError "Got non-aligned tail!")
  else .ok (some res)

/-- Whether `head` refuses an event of a rounded size. -/
def refuses (evSize : UInt64) (rb : ShmRingbuf) : Bool :=
  if rb.header.head ≥ rb.header.tail then
    rb.header.head + evSize > rb.header.tail + rb.header.size
  else rb.header.head + evSize ≥ rb.header.tail

/-- `head`, null where the event does not fit. -/
def head (evSize : UInt64) (rb : ShmRingbuf) :
    Except Failure (Option UInt64) :=
  match rb.misaligned? with
  | some failure => .error failure
  | none =>
      if rb.refuses (roundUp evSize) then .ok none
      else alignedPointer rb.header.head

def canBeLoaded (evSize : UInt64) (rb : ShmRingbuf) : Except Failure Bool :=
  match rb.misaligned? with
  | some failure => .error failure
  | none =>
      .ok (if rb.header.tail ≤ rb.header.head then
        rb.header.tail + roundUp evSize ≤ rb.header.head
      else
        rb.header.tail + roundUp evSize ≤ rb.header.head + rb.header.size)

/-- `tail`, null where so much cannot be loaded. -/
def tail (evSize : UInt64) (rb : ShmRingbuf) :
    Except Failure (Option UInt64) :=
  match rb.canBeLoaded (roundUp evSize) with
  | .error failure => .error failure
  | .ok false => .ok none
  | .ok true => alignedPointer rb.header.tail

def advanceHead (evSize : UInt64) (rb : ShmRingbuf) : ShmRingbuf :=
  { rb with header.head :=
      (rb.header.head + roundUp evSize) % rb.header.size }

def advanceTail (evSize : UInt64) (rb : ShmRingbuf) :
    Except Failure ShmRingbuf :=
  let evSize := roundUp evSize
  match rb.canBeLoaded evSize with
  | .error failure => .error failure
  | .ok false => .error (.assertion "can_be_loaded(ev_size)")
  | .ok true =>
      if (rb.header.tail + evSize) % 8 ≠ 0 then
        .error (.assertion "(header_->tail.load() + ev_size) % 8 == 0")
      else .ok { rb with header.tail :=
        (rb.header.tail + evSize) % rb.header.size }

/-- The bytes from an offset on. -/
def bytes (pos len : Nat) (rb : ShmRingbuf) : List UInt8 :=
  rb.memory.window rb.header.size.toNat pos len

/-- Storing bytes, which faults outside the two mappings. -/
def store (pos : Nat) (cells : List UInt8) (rb : ShmRingbuf) :
    Except Failure ShmRingbuf :=
  if pos + cells.length ≤ 2 * rb.header.size.toNat then
    .ok { rb with memory :=
      rb.memory.write rb.header.size.toNat pos cells }
  else .error .invalidAccess

/-- `memset` to zero. -/
def memset (pos len : Nat) (rb : ShmRingbuf) : Except Failure ShmRingbuf :=
  if pos + len ≤ 2 * rb.header.size.toNat then
    rb.store pos (List.replicate len 0)
  else .error .invalidAccess

/-- Reading `header->size`. -/
def loadSize (pos : Nat) (rb : ShmRingbuf) : Except Failure UInt64 :=
  if pos + 8 ≤ 2 * rb.header.size.toNat then
    .ok (UInt64.ofNat (ofLittleEndian (rb.bytes pos 8)))
  else .error .invalidAccess

end ShmRingbuf

/-- `sizeof(struct event_header)`. -/
def eventHeaderSize : UInt64 := 16

namespace RingbufReader

/-- `get`, null where no event can be loaded. -/
def get (rb : ShmRingbuf) : Except Failure (Option UInt64) :=
  match rb.tail eventHeaderSize with
  | .error failure => .error failure
  | .ok none => .ok none
  | .ok (some header) =>
      match rb.loadSize header.toNat with
      | .error failure => .error failure
      | .ok size => rb.tail size

def empty (rb : ShmRingbuf) : Except Failure Bool :=
  match rb.tail eventHeaderSize with
  | .error failure => .error failure
  | .ok header => .ok header.isNone

end RingbufReader

/-- A ring buffer in use: the shared memory, `reserved_size_` of the writer,
and the events committed and popped so far. -/
structure RingbufSession where
  rb : ShmRingbuf
  reservedSize : UInt64
  committed : List (List UInt8)
  popped : List (List UInt8)

namespace RingbufSession

/-- `RingbufWriter::reserve<T>(payload)`. -/
def reserve (sizeofT payload : UInt64) (s : RingbufSession) :
    Except Failure RingbufSession :=
  if s.reservedSize ≠ 0 then .error (.assertion "reserved_size_ == 0")
  else
    let evSize := sizeofT + payload
    match s.rb.head evSize with
    | .error failure => .error failure
    | .ok none => .ok s
    | .ok (some ev) =>
        match s.rb.memset ev.toNat evSize.toNat with
        | .error failure => .error failure
        | .ok rb =>
        match rb.store ev.toNat (littleEndian 8 evSize.toNat) with
        | .error failure => .error failure
        | .ok rb => .ok { s with rb := rb, reservedSize := evSize }

/-- The client stores a byte of the event it reserved. -/
def fill (offset : Nat) (byte : UInt8) (s : RingbufSession) :
    Except Failure RingbufSession :=
  match s.rb.store (s.rb.header.head.toNat + offset) [byte] with
  | .error failure => .error failure
  | .ok rb => .ok { s with rb := rb }

/-- `RingbufWriter::commit`. -/
def commit (s : RingbufSession) : Except Failure RingbufSession :=
  if s.reservedSize = 0 then .error (.assertion "reserved_size_ != 0")
  else .ok
    { s with
      rb := s.rb.advanceHead s.reservedSize
      reservedSize := 0
      committed := s.committed ++
        [s.rb.bytes s.rb.header.head.toNat s.reservedSize.toNat] }

/-- `RingbufReader::pop`. -/
def pop (s : RingbufSession) : Except Failure RingbufSession :=
  match s.rb.tail eventHeaderSize with
  | .error failure => .error failure
  | .ok none => .ok s
  | .ok (some header) =>
      match s.rb.loadSize header.toNat with
      | .error failure => .error failure
      | .ok size =>
          match s.rb.advanceTail size with
          | .error failure => .error failure
          | .ok rb => .ok
              { s with
                rb := rb
                popped := s.popped ++ [s.rb.bytes header.toNat size.toNat] }

end RingbufSession

/-- What is reserved: a type that starts with an event header, and a payload
behind it. -/
structure EventRequest where
  sizeofT : UInt64
  payload : UInt64
  header : eventHeaderSize ≤ sizeofT
  representable : sizeofT.toNat + payload.toNat < 2 ^ 64

/-- An operation of the writer, its client, or the reader. -/
inductive RingbufStep where
  | reserve (request : EventRequest)
  | fill (offset : Nat) (byte : UInt8)
  | commit
  | empty
  | get
  | pop

namespace RingbufSession

/-- One operation. -/
def step (s : RingbufSession) : RingbufStep → Except Failure RingbufSession
  | .reserve request => s.reserve request.sizeofT request.payload
  | .fill offset byte => s.fill offset byte
  | .commit => s.commit
  | .empty =>
      match RingbufReader.empty s.rb with
      | .error failure => .error failure
      | .ok _ => .ok s
  | .get =>
      match RingbufReader.get s.rb with
      | .error failure => .error failure
      | .ok _ => .ok s
  | .pop => s.pop

/-- Reservations do not overlap, and the client stores into the event it
reserved, behind the size that `reserve` has stored. -/
def Allowed (s : RingbufSession) : RingbufStep → Prop
  | .reserve _ => s.reservedSize = 0
  | .fill offset _ => 8 ≤ offset ∧ offset < s.reservedSize.toNat
  | .commit => s.reservedSize ≠ 0
  | _ => True

instance (s : RingbufSession) : (step : RingbufStep) → Decidable (s.Allowed step)
  | .reserve _ => inferInstanceAs (Decidable (s.reservedSize = 0))
  | .fill offset _ =>
      inferInstanceAs (Decidable (8 ≤ offset ∧ offset < s.reservedSize.toNat))
  | .commit => inferInstanceAs (Decidable (s.reservedSize ≠ 0))
  | .empty | .get | .pop => isTrue trivial

end RingbufSession

/-- A size a ring buffer can have: its two mappings fit into memory. -/
structure BufferSize where
  size : UInt64
  positive : 0 < size
  aligned : size % 8 = 0
  mapped : 2 * size.toNat < 2 ^ 64

/-- A ring buffer as the reader creates it, over any memory. -/
def RingbufSession.start (size : BufferSize) (memory : Circular UInt8) :
    RingbufSession :=
  { rb := ⟨⟨size.size, 0, 0⟩, memory⟩
    reservedSize := 0
    committed := []
    popped := [] }

end Lo2s
