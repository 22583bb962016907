import Lo2s.RingbufFifo

/-!
# The content of events in the ring buffer

A reserved event is zero but for its size.  The fields that the client stores
replace parts of it, and are what the reader finds again once the event is the
first one pending.
-/

namespace Lo2s

open Foundation ShmRingbuf

/-- A 64-bit number in memory. -/
def word (value : UInt64) : List UInt8 := littleEndian 8 value.toNat

@[simp] theorem length_word (value : UInt64) : (word value).length = 8 :=
  length_littleEndian 8 value.toNat

theorem ofLittleEndian_word (value : UInt64) :
    UInt64.ofNat (ofLittleEndian (word value)) = value := by
  rw [word, ofLittleEndian_littleEndian value.toNat_lt, UInt64.ofNat_toNat]

/-- `std::string` of a `const char*`. -/
def ShmRingbuf.loadString (pos : Nat) (rb : ShmRingbuf) :
    Except Failure (List UInt8) :=
  let chars := rb.bytes pos (2 * rb.header.size.toNat - pos)
  if 0 ∈ chars then .ok (chars.takeWhile (· ≠ 0)) else .error .invalidAccess

namespace RingbufSession

/-- Stores into the event that is reserved, from an offset on. -/
def storeField (offset : Nat) (cells : List UInt8) (s : RingbufSession) :
    Except Failure RingbufSession := do
  let rb ← s.rb.store (s.rb.header.head.toNat + offset) cells
  return { s with rb := rb }

/-- The event that is reserved, as it is so far. -/
def reservedEvent (s : RingbufSession) : List UInt8 :=
  s.rb.bytes s.rb.header.head.toNat s.reservedSize.toNat

variable {s next : RingbufSession} {pending : List (List UInt8)}

theorem reservedEvent_cleared {evSize : UInt64} (large : 16 ≤ evSize.toNat)
    (fits : padded evSize.toNat ≤ s.rb.header.size.toNat) :
    (Framing.cleared evSize s).reservedEvent =
      word evSize ++ List.replicate (evSize.toNat - 8) 0 := by
  have bound := le_padded evSize.toNat
  have short : (List.replicate evSize.toNat (0 : UInt8)).length ≤
      s.rb.header.size.toNat := by
    rw [List.length_replicate]
    omega
  have zeroes := Circular.window_write_self s.rb.memory
    s.rb.header.head.toNat short
  have split : List.replicate evSize.toNat (0 : UInt8) =
      [] ++ List.replicate 8 0 ++ List.replicate (evSize.toNat - 8) 0 := by
    rw [List.nil_append, List.replicate_append_replicate,
      Nat.add_sub_cancel' (by omega)]
  rw [List.length_replicate] at zeroes short
  exact Circular.window_write_inside _ short (zeroes.trans split)
    (length_word evSize)

/-- Storing a field replaces a part of the event that is reserved, and nothing
else. -/
theorem Framing.storeField_spec (framing : Framing s pending)
    {front old cells back : List UInt8} {offset : Nat}
    (content : s.reservedEvent = front ++ old ++ back)
    (position : front.length = offset) (behind : 8 ≤ offset)
    (same : cells.length = old.length) :
    ∃ next, s.storeField offset cells = .ok next ∧
      Framing next pending ∧ next.reservedEvent = front ++ cells ++ back ∧
      next.reservedSize = s.reservedSize ∧ next.rb.header = s.rb.header ∧
      next.committed = s.committed ∧ next.popped = s.popped := by
  subst position
  have room := framing.room
  have large := le_padded s.reservedSize.toNat
  have length := congrArg List.length content
  rw [reservedEvent, bytes, Circular.length_window, List.length_append,
    List.length_append] at length
  have free : used pending + front.length + cells.length ≤
      s.rb.header.size.toNat := by omega
  let next : RingbufSession :=
    { s with
      rb.memory := s.rb.memory.write s.rb.header.size.toNat
        (s.rb.header.head.toNat + front.length) cells }
  refine ⟨next, ?_, ?_, ?_, rfl, rfl, rfl, rfl⟩
  · rw [storeField, framing.store_eq free]
    rfl
  · refine { framing with framed := framing.framed_write free, reserved := ?_ }
    intro active
    obtain ⟨header, stored⟩ := framing.reserved active
    refine ⟨header, ?_⟩
    rw [← stored]
    apply congrArg ofLittleEndian
    apply Circular.window_write_of_disjoint
    · exact Nat.add_le_add_left behind _
    · change s.rb.header.head.toNat + front.length + cells.length ≤
        s.rb.header.head.toNat + s.rb.header.size.toNat
      omega
  · have short : s.reservedSize.toNat ≤ s.rb.header.size.toNat := by omega
    exact Circular.window_write_inside _ short content same

theorem Framing.commit_spec (framing : Framing s pending)
    (active : s.reservedSize ≠ 0) (spare : ¬ s.FillsUp .commit) :
    ∃ next, s.commit = .ok next ∧
      Framing next (pending ++ [s.reservedEvent]) ∧ next.reservedSize = 0 ∧
      next.committed = s.committed ++ [s.reservedEvent] ∧
      next.popped = s.popped := by
  have room : used pending + padded s.reservedSize.toNat <
      s.rb.header.size.toNat := by
    apply Nat.lt_of_le_of_ne framing.room
    intro full
    rw [framing.used_eq] at full
    exact spare full
  obtain ⟨next, event, stepped, nextFraming, committed, popped⟩ :=
    framing.commit_append active room
  have known := stepped
  rw [commit, if_neg active, Except.ok.injEq] at known
  subst known
  have same : event = s.reservedEvent :=
    (List.singleton_inj.mp (List.append_cancel_left committed)).symm
  exact ⟨_, stepped, same ▸ nextFraming, rfl, rfl, popped⟩

theorem advanceTail_eq_ok {rb after : ShmRingbuf} {evSize : UInt64}
    (advanced : rb.advanceTail evSize = .ok after) :
    ∃ tail, after = { rb with header.tail := tail } := by
  simp only [advanceTail] at advanced
  split at advanced
  · cases advanced
  · cases advanced
  · split_ifs at advanced
    rw [Except.ok.injEq] at advanced
    exact ⟨_, advanced.symm⟩

theorem pop_reserved (popped : s.pop = .ok next) :
    next.reservedSize = s.reservedSize ∧
      next.reservedEvent = s.reservedEvent := by
  unfold pop at popped
  split at popped
  · cases popped
  · rw [Except.ok.injEq] at popped
    exact popped ▸ ⟨rfl, rfl⟩
  · split at popped
    · cases popped
    · split at popped
      · cases popped
      · next advanced =>
          obtain ⟨tail, rfl⟩ := advanceTail_eq_ok advanced
          rw [Except.ok.injEq] at popped
          subst popped
          exact ⟨rfl, rfl⟩

theorem Framing.bytes_tail {event : List UInt8} {events : List (List UInt8)}
    (framing : Framing s (event :: events)) :
    s.rb.bytes s.rb.header.tail.toNat event.length = event :=
  framing.framed.2.2.1

theorem Framing.loadSize_field {event front back : List UInt8}
    {value : UInt64} {offset : Nat} {events : List (List UInt8)}
    (framing : Framing s (event :: events))
    (shape : event = front ++ word value ++ back)
    (position : front.length = offset) :
    s.rb.loadSize (s.rb.header.tail.toNat + offset) = .ok value := by
  subst shape position
  have content := framing.bytes_tail
  have notFull := framing.notFull
  have inside := framing.tailInside
  have length : (front ++ word value ++ back).length =
      front.length + 8 + back.length := by simp [Nat.add_assoc]
  have within := le_padded (front.length + 8 + back.length)
  rw [used_cons, length] at notFull
  rw [bytes, length, Circular.window_add, Circular.window_add] at content
  have start := (List.append_inj content (by simp)).1
  have field := (List.append_inj start (by simp)).2
  rw [loadSize, if_pos (by omega), bytes, field, ofLittleEndian_word]

theorem takeWhile_string {chars rest : List UInt8} (noZero : 0 ∉ chars) :
    (chars ++ 0 :: rest).takeWhile (· ≠ 0) = chars := by
  induction chars with
  | nil => simp
  | cons char chars induction =>
      rw [List.mem_cons, not_or] at noZero
      rw [List.cons_append, List.takeWhile_cons,
        if_pos (by simpa using Ne.symm noZero.1), induction noZero.2]

theorem Framing.loadString_field {event front chars : List UInt8}
    {offset : Nat} {events : List (List UInt8)}
    (framing : Framing s (event :: events))
    (shape : event = front ++ chars ++ [0]) (position : front.length = offset)
    (noZero : 0 ∉ chars) :
    s.rb.loadString (s.rb.header.tail.toNat + offset) = .ok chars := by
  subst shape position
  have content := framing.bytes_tail
  have notFull := framing.notFull
  have inside := framing.tailInside
  have length : (front ++ chars ++ [0]).length =
      front.length + (chars.length + 1) := by simp
  have within := le_padded (front.length + (chars.length + 1))
  rw [used_cons, length] at notFull
  rw [bytes, length, Circular.window_add, List.append_assoc] at content
  have string := (List.append_inj content (by simp)).2
  -- The memory goes on behind the string.
  have rest : 2 * s.rb.header.size.toNat -
      (s.rb.header.tail.toNat + front.length) = chars.length + 1 +
        (2 * s.rb.header.size.toNat - (s.rb.header.tail.toNat + front.length) -
          (chars.length + 1)) := by omega
  rw [loadString, bytes, rest, Circular.window_add, string, List.append_assoc]
  rw [if_pos (by simp)]
  exact congrArg Except.ok (takeWhile_string noZero)

end RingbufSession

end Lo2s
