import Lo2s.ShmRingbuf

/-!
# The framing of the ring buffer

Between tail and head the memory holds the pending events one after the other,
each padded to a multiple of eight bytes and each starting with its size.  The
reader steps over them with the sizes it reads, and an active reservation lies
in the free part.  There is one lemma for each operation of either side.
-/

namespace Lo2s

open Foundation

namespace ShmRingbuf

/-- A size rounded up to a multiple of eight, without overflow. -/
def padded (size : Nat) : Nat := (size + 7) / 8 * 8

theorem le_padded (size : Nat) : size ≤ padded size := by
  unfold padded
  omega

theorem padded_zero : padded (0 : UInt64).toNat = 0 := rfl

theorem padded_aligned (size : Nat) : padded size % 8 = 0 := by
  unfold padded
  omega

private theorem and_not_seven {n : Nat} (small : n < 2 ^ 64) :
    n &&& (2 ^ 64 - 8) = n / 8 * 8 := by
  have mask : 2 ^ 64 - 8 = 2 ^ 3 * (2 ^ 61 - 1) := by decide
  have cleared : n / 8 * 8 = 2 ^ 3 * (n / 2 ^ 3) := Nat.mul_comm _ _
  rw [mask, cleared]
  apply Nat.eq_of_testBit_eq
  intro bit
  rw [Nat.testBit_and, Nat.testBit_two_pow_mul, Nat.testBit_two_pow_mul,
    Nat.testBit_two_pow_sub_one, Nat.testBit_div_two_pow]
  by_cases low : 3 ≤ bit
  · have index : bit - 3 + 3 = bit := by omega
    by_cases high : bit < 64
    · have inside : bit - 3 < 61 := by omega
      simp [low, inside, index]
    · have zero : n.testBit bit = false := by
        apply Nat.testBit_lt_two_pow
        apply Nat.lt_of_lt_of_le small
        exact Nat.pow_le_pow_right (by decide) (by omega)
      simp [zero, low, index]
  · simp [low]

theorem roundUp_toNat (evSize : UInt64) :
    (roundUp evSize).toNat = padded evSize.toNat % 2 ^ 64 := by
  have sum : (evSize + 7).toNat = (evSize.toNat + 7) % 2 ^ 64 := by
    rw [UInt64.toNat_add]
    rfl
  have bound := evSize.toNat_lt
  rw [roundUp, UInt64.toNat_and, sum,
    show (~~~7 : UInt64).toNat = 2 ^ 64 - 8 from rfl,
    and_not_seven (Nat.mod_lt _ (by decide)), padded]
  omega

theorem roundUp_of_small {evSize : UInt64} (small : evSize.toNat ≤ 2 ^ 63) :
    (roundUp evSize).toNat = padded evSize.toNat := by
  rw [roundUp_toNat]
  unfold padded
  omega

theorem roundUp_roundUp {evSize : UInt64} (small : evSize.toNat ≤ 2 ^ 63) :
    (roundUp (roundUp evSize)).toNat = padded evSize.toNat := by
  have once := roundUp_of_small small
  rw [roundUp_of_small (by rw [once]; unfold padded; omega), once]
  unfold padded
  omega

/-- The bytes some events take up. -/
def used (events : List (List UInt8)) : Nat :=
  (events.map fun event => padded event.length).sum

@[simp] theorem used_nil : used [] = 0 := rfl

@[simp] theorem used_cons (event : List UInt8) (events : List (List UInt8)) :
    used (event :: events) = padded event.length + used events := by
  simp [used]

theorem used_append (first second : List (List UInt8)) :
    used (first ++ second) = used first + used second := by
  simp [used]

theorem used_aligned (events : List (List UInt8)) : used events % 8 = 0 := by
  induction events with
  | nil => rfl
  | cons event events induction =>
      have aligned := padded_aligned event.length
      rw [used_cons]
      omega

/-- From a position on, the memory holds events one after the other. -/
def Framed (memory : Circular UInt8) (size : Nat) :
    Nat → List (List UInt8) → Prop
  | _, [] => True
  | pos, event :: events =>
      16 ≤ event.length ∧ ofLittleEndian (event.take 8) = event.length ∧
        memory.window size pos event.length = event ∧
          Framed memory size (pos + padded event.length) events

theorem Framed.congr {memory : Circular UInt8} {size left right : Nat}
    {events : List (List UInt8)} (framed : Framed memory size left events)
    (same : left % size = right % size) : Framed memory size right events := by
  induction events generalizing left right with
  | nil => exact trivial
  | cons event events induction =>
      obtain ⟨header, size', content, rest⟩ := framed
      refine ⟨header, size', ?_, induction rest ?_⟩
      · rw [← content, Circular.length_window]
        exact (memory.window_congr same _).symm
      · rw [Nat.add_mod, same, ← Nat.add_mod]

theorem Framed.append {memory : Circular UInt8} {size pos : Nat}
    {first second : List (List UInt8)} (left : Framed memory size pos first)
    (right : Framed memory size (pos + used first) second) :
    Framed memory size pos (first ++ second) := by
  induction first generalizing pos with
  | nil => exact right
  | cons event first induction =>
      obtain ⟨header, size', content, rest⟩ := left
      refine ⟨header, size', content, induction rest ?_⟩
      rw [used_cons, ← Nat.add_assoc] at right
      exact right

theorem Framed.write {memory : Circular UInt8} {size pos : Nat}
    {events : List (List UInt8)} (framed : Framed memory size pos events)
    {target : Nat} {cells : List UInt8} (front : pos + used events ≤ target)
    (lap : target + cells.length ≤ pos + size) :
    Framed (memory.write size target cells) size pos events := by
  induction events generalizing pos with
  | nil => exact trivial
  | cons event events induction =>
      obtain ⟨header, size', content, rest⟩ := framed
      have within := le_padded event.length
      rw [used_cons] at front
      refine ⟨header, size', ?_, induction rest (by omega) (by omega)⟩
      rw [Circular.window_write_of_disjoint _ (by omega) lap]
      exact content

end ShmRingbuf

namespace RingbufSession

open ShmRingbuf

/-- The invariant of a session, with the events still to be read. -/
structure Framing (s : RingbufSession) (pending : List (List UInt8)) :
    Prop where
  sizePositive : 0 < s.rb.header.size.toNat
  sizeAligned : s.rb.header.size.toNat % 8 = 0
  mapped : 2 * s.rb.header.size.toNat < 2 ^ 64
  tailInside : s.rb.header.tail.toNat < s.rb.header.size.toNat
  tailAligned : s.rb.header.tail.toNat % 8 = 0
  headAt : s.rb.header.head.toNat =
    (s.rb.header.tail.toNat + used pending) % s.rb.header.size.toNat
  notFull : used pending < s.rb.header.size.toNat
  framed : Framed s.rb.memory s.rb.header.size.toNat s.rb.header.tail.toNat
    pending
  room : used pending + padded s.reservedSize.toNat ≤
    s.rb.header.size.toNat
  reserved : s.reservedSize ≠ 0 → 16 ≤ s.reservedSize.toNat ∧
    ofLittleEndian (s.rb.bytes s.rb.header.head.toNat 8) =
      s.reservedSize.toNat

namespace Framing

variable {s : RingbufSession} {pending : List (List UInt8)}

theorem start (size : BufferSize) (memory : Circular UInt8) :
    Framing (.start size memory) [] where
  sizePositive := by
    have positive := UInt64.lt_iff_toNat_lt.mp size.positive
    exact positive
  sizeAligned := by
    have aligned := congrArg UInt64.toNat size.aligned
    rw [UInt64.toNat_mod] at aligned
    exact aligned
  mapped := size.mapped
  tailInside := UInt64.lt_iff_toNat_lt.mp size.positive
  tailAligned := rfl
  headAt := (Nat.zero_mod _).symm
  notFull := UInt64.lt_iff_toNat_lt.mp size.positive
  framed := trivial
  room := by
    rw [RingbufSession.start, padded_zero]
    exact Nat.zero_le _
  reserved := fun active => absurd rfl active

/-- The head lies behind the tail, or has come around to the beginning. -/
theorem head_cases (framing : Framing s pending) :
    s.rb.header.head.toNat = s.rb.header.tail.toNat + used pending ∨
      s.rb.header.head.toNat + s.rb.header.size.toNat =
        s.rb.header.tail.toNat + used pending ∧
      s.rb.header.head.toNat < s.rb.header.tail.toNat := by
  have inside := framing.tailInside
  have notFull := framing.notFull
  rw [framing.headAt]
  by_cases straight : s.rb.header.tail.toNat + used pending <
      s.rb.header.size.toNat
  · exact .inl (Nat.mod_eq_of_lt straight)
  · rw [Nat.mod_eq_sub_mod (by omega), Nat.mod_eq_of_lt (by omega)]
    omega

theorem headInside (framing : Framing s pending) :
    s.rb.header.head.toNat < s.rb.header.size.toNat := by
  rw [framing.headAt]
  exact Nat.mod_lt _ framing.sizePositive

theorem headAligned (framing : Framing s pending) :
    s.rb.header.head.toNat % 8 = 0 := by
  have tail := framing.tailAligned
  have size := framing.sizeAligned
  have events := used_aligned pending
  rcases framing.head_cases with straight | ⟨around, _⟩
  · omega
  · omega

private theorem mod_eight {x : UInt64} : x % 8 = 0 ↔ x.toNat % 8 = 0 := by
  rw [← UInt64.toNat_inj, UInt64.toNat_mod]
  rfl

theorem aligned (framing : Framing s pending) :
    s.rb.misaligned? = none := by
  simp [misaligned?, mod_eight.mpr framing.tailAligned,
    mod_eight.mpr framing.headAligned]

theorem alignedPointer_eq {res : UInt64} (aligned : res.toNat % 8 = 0) :
    alignedPointer res = .ok (some res) := by
  simp [alignedPointer, mod_eight.mpr aligned]

theorem canBeLoaded_eq (framing : Framing s pending) {evSize : UInt64}
    (small : (roundUp evSize).toNat ≤ 2 ^ 63) :
    s.rb.canBeLoaded evSize =
      .ok (decide ((roundUp evSize).toNat ≤ used pending)) := by
  have mapped := framing.mapped
  have inside := framing.tailInside
  have headInside := framing.headInside
  have notFull := framing.notFull
  have sum : (s.rb.header.tail + roundUp evSize).toNat =
      s.rb.header.tail.toNat + (roundUp evSize).toNat := by
    rw [UInt64.toNat_add, Nat.mod_eq_of_lt (by omega)]
  have lap : (s.rb.header.head + s.rb.header.size).toNat =
      s.rb.header.head.toNat + s.rb.header.size.toNat := by
    rw [UInt64.toNat_add, Nat.mod_eq_of_lt (by omega)]
  simp only [canBeLoaded, framing.aligned, UInt64.le_iff_toNat_le, sum, lap,
    Except.ok.injEq]
  rcases framing.head_cases with straight | ⟨around, below⟩
  · rw [if_pos (by omega)]
    exact decide_eq_decide.mpr (by omega)
  · rw [if_neg (by omega)]
    exact decide_eq_decide.mpr (by omega)

theorem tail_eq (framing : Framing s pending) {evSize : UInt64}
    (small : evSize.toNat ≤ 2 ^ 63) :
    s.rb.tail evSize =
      .ok (if padded evSize.toNat ≤ used pending then some s.rb.header.tail
        else none) := by
  have twice := roundUp_roundUp small
  have bound : (roundUp (roundUp evSize)).toNat ≤ 2 ^ 63 := by
    rw [twice]
    unfold padded
    omega
  rw [ShmRingbuf.tail, framing.canBeLoaded_eq bound, twice]
  by_cases loadable : padded evSize.toNat ≤ used pending
  · simp only [loadable, decide_true, if_true]
    exact alignedPointer_eq framing.tailAligned
  · simp [loadable]

theorem headerTail_eq (framing : Framing s pending) :
    s.rb.tail eventHeaderSize =
      .ok (if pending = [] then none else some s.rb.header.tail) := by
  rw [framing.tail_eq (by decide)]
  cases shape : pending with
  | nil => rfl
  | cons event events =>
      have framed := framing.framed
      rw [shape] at framed
      have large := Nat.le_trans framed.1 (le_padded event.length)
      have loadable : padded eventHeaderSize.toNat ≤
          used (event :: events) := by
        rw [used_cons]
        exact Nat.le_trans large (Nat.le_add_right _ _)
      rw [if_pos loadable, if_neg (List.cons_ne_nil _ _)]

theorem empty_eq (framing : Framing s pending) :
    RingbufReader.empty s.rb = .ok pending.isEmpty := by
  rw [RingbufReader.empty, framing.headerTail_eq]
  cases pending <;> simp

/-- The size the reader finds is that of the first pending event. -/
theorem loadSize_eq {event : List UInt8} {events : List (List UInt8)}
    (framing : Framing s (event :: events)) :
    s.rb.loadSize s.rb.header.tail.toNat =
      .ok (UInt64.ofNat event.length) := by
  obtain ⟨large, size, content, _⟩ := framing.framed
  have within := le_padded event.length
  have notFull := framing.notFull
  have inside := framing.tailInside
  rw [used_cons] at notFull
  rw [loadSize, if_pos (by omega), bytes,
    ← Circular.take_window _ _ _ (show 8 ≤ event.length by omega), content, size]

/-- The size of a pending event is less than that of the buffer. -/
theorem eventSize {event : List UInt8} {events : List (List UInt8)}
    (framing : Framing s (event :: events)) :
    (UInt64.ofNat event.length).toNat = event.length ∧
      event.length ≤ 2 ^ 63 := by
  have within := le_padded event.length
  have notFull := framing.notFull
  have mapped := framing.mapped
  rw [used_cons] at notFull
  refine ⟨?_, by omega⟩
  rw [UInt64.toNat_ofNat', Nat.mod_eq_of_lt (by omega)]

theorem get_eq (framing : Framing s pending) :
    RingbufReader.get s.rb =
      .ok (if pending = [] then none else some s.rb.header.tail) := by
  rw [RingbufReader.get, framing.headerTail_eq]
  cases shape : pending with
  | nil => rfl
  | cons event events =>
      rw [shape] at framing
      obtain ⟨size, small⟩ := framing.eventSize
      simp only [if_neg (List.cons_ne_nil event events), framing.loadSize_eq]
      rw [framing.tail_eq (by rw [size]; exact small), size, used_cons,
        if_pos (Nat.le_add_right _ _)]

theorem pop_nil (framing : Framing s []) : s.pop = .ok s := by
  rw [pop, framing.headerTail_eq]
  rfl

theorem pop_cons {event : List UInt8} {events : List (List UInt8)}
    (framing : Framing s (event :: events)) :
    ∃ next, s.pop = .ok next ∧ Framing next events ∧
      next.rb.header.tail.toNat =
        (s.rb.header.tail.toNat + padded event.length) %
          s.rb.header.size.toNat ∧
      next.committed = s.committed ∧ next.popped = s.popped ++ [event] := by
  obtain ⟨large, header, content, rest⟩ := framing.framed
  obtain ⟨size, small⟩ := framing.eventSize
  have notFull := framing.notFull
  have mapped := framing.mapped
  have inside := framing.tailInside
  have room := framing.room
  rw [used_cons] at notFull room
  have rounded : (roundUp (UInt64.ofNat event.length)).toNat =
      padded event.length := by
    rw [roundUp_of_small (by rw [size]; exact small), size]
  have twice : (roundUp (roundUp (UInt64.ofNat event.length))).toNat =
      padded event.length := by
    rw [roundUp_roundUp (by rw [size]; exact small), size]
  have loadable : s.rb.canBeLoaded (roundUp (UInt64.ofNat event.length)) =
      .ok true := by
    rw [framing.canBeLoaded_eq (by rw [twice]; omega), twice, used_cons,
      decide_eq_true (Nat.le_add_right _ _)]
  have sum : (s.rb.header.tail + roundUp (UInt64.ofNat event.length)).toNat =
      s.rb.header.tail.toNat + padded event.length := by
    rw [UInt64.toNat_add, rounded, Nat.mod_eq_of_lt (by omega)]
  have stepAligned :
      (s.rb.header.tail + roundUp (UInt64.ofNat event.length)) % 8 = 0 := by
    have aligned := framing.tailAligned
    have eventAligned := padded_aligned event.length
    rw [mod_eight, sum]
    omega
  have tailAfter : ((s.rb.header.tail + roundUp (UInt64.ofNat event.length)) %
      s.rb.header.size).toNat = (s.rb.header.tail.toNat + padded event.length) %
        s.rb.header.size.toNat := by
    rw [UInt64.toNat_mod, sum]
  let next : RingbufSession :=
    { s with
      rb.header.tail :=
        (s.rb.header.tail + roundUp (UInt64.ofNat event.length)) %
          s.rb.header.size
      popped := s.popped ++ [s.rb.bytes s.rb.header.tail.toNat
        (UInt64.ofNat event.length).toNat] }
  refine ⟨next, ?_, ?_, tailAfter, rfl, ?_⟩
  · simp only [pop, framing.headerTail_eq, if_neg (List.cons_ne_nil event events),
      framing.loadSize_eq, advanceTail, loadable, stepAligned, ne_eq,
      not_true_eq_false, if_false]
    rfl
  · refine
      { sizePositive := framing.sizePositive
        sizeAligned := framing.sizeAligned
        mapped := mapped
        tailInside := ?_
        tailAligned := ?_
        headAt := ?_
        notFull := Nat.lt_of_le_of_lt (Nat.le_add_left _ _) notFull
        framed := ?_
        room := Nat.le_trans (Nat.add_le_add_right (Nat.le_add_left _ _) _) room
        reserved := framing.reserved }
    · rw [tailAfter]
      exact Nat.mod_lt _ framing.sizePositive
    · have aligned := framing.tailAligned
      have eventAligned := padded_aligned event.length
      rw [tailAfter, Nat.mod_mod_of_dvd _
        (Nat.dvd_of_mod_eq_zero framing.sizeAligned)]
      omega
    · rw [tailAfter, Nat.mod_add_mod, Nat.add_assoc, ← used_cons]
      exact framing.headAt
    · rw [tailAfter]
      exact rest.congr (Nat.mod_mod _ _).symm
  · change s.popped ++ [s.rb.bytes s.rb.header.tail.toNat
      (UInt64.ofNat event.length).toNat] = _
    rw [size, bytes, content]

theorem framed_write (framing : Framing s pending) {offset : Nat}
    {cells : List UInt8} (free : used pending + offset + cells.length ≤
      s.rb.header.size.toNat) :
    Framed (s.rb.memory.write s.rb.header.size.toNat
        (s.rb.header.head.toNat + offset) cells)
      s.rb.header.size.toNat s.rb.header.tail.toNat pending := by
  have same : (s.rb.header.head.toNat + offset) % s.rb.header.size.toNat =
      (s.rb.header.tail.toNat + used pending + offset) %
        s.rb.header.size.toNat := by
    rw [framing.headAt, Nat.mod_add_mod]
  rw [Circular.write_congr _ same]
  exact framing.framed.write (by omega) (by omega)

theorem store_eq (framing : Framing s pending) {offset : Nat}
    {cells : List UInt8} (free : used pending + offset + cells.length ≤
      s.rb.header.size.toNat) :
    s.rb.store (s.rb.header.head.toNat + offset) cells =
      .ok
        { s.rb with
          memory := s.rb.memory.write s.rb.header.size.toNat
            (s.rb.header.head.toNat + offset) cells } := by
  have inside := framing.headInside
  rw [store, if_pos (by omega)]

/-- The client's stores stay within its event and off the stored size. -/
theorem fill_spec (framing : Framing s pending) {offset : Nat}
    (behind : 8 ≤ offset) (within : offset < s.reservedSize.toNat)
    (byte : UInt8) :
    ∃ next, s.fill offset byte = .ok next ∧ Framing next pending ∧
      next.committed = s.committed ∧ next.popped = s.popped := by
  have room := framing.room
  have large := le_padded s.reservedSize.toNat
  have free : used pending + offset + [byte].length ≤
      s.rb.header.size.toNat := by
    rw [List.length_singleton]
    omega
  let next : RingbufSession :=
    { s with
      rb.memory := s.rb.memory.write s.rb.header.size.toNat
        (s.rb.header.head.toNat + offset) [byte] }
  refine ⟨next, ?_, ?_, rfl, rfl⟩
  · rw [fill, framing.store_eq free]
  · refine { framing with framed := framing.framed_write free, reserved := ?_ }
    intro active
    obtain ⟨header, stored⟩ := framing.reserved active
    refine ⟨header, ?_⟩
    rw [← stored]
    apply congrArg ofLittleEndian
    apply Circular.window_write_of_disjoint
    · exact Nat.add_le_add_left behind _
    · change s.rb.header.head.toNat + offset + [byte].length ≤
        s.rb.header.head.toNat + s.rb.header.size.toNat
      omega

theorem fits_of_not_refuses (framing : Framing s pending) {evSize : UInt64}
    (representable :
      s.rb.header.head.toNat + padded evSize.toNat < 2 ^ 64)
    (admitted : s.rb.refuses (roundUp evSize) = false) :
    used pending + padded evSize.toNat ≤ s.rb.header.size.toNat := by
  have mapped := framing.mapped
  have inside := framing.tailInside
  have rounded : (roundUp evSize).toNat = padded evSize.toNat := by
    rw [roundUp_toNat, Nat.mod_eq_of_lt (by omega)]
  have ahead : (s.rb.header.head + roundUp evSize).toNat =
      s.rb.header.head.toNat + padded evSize.toNat := by
    rw [UInt64.toNat_add, rounded, Nat.mod_eq_of_lt representable]
  have lap : (s.rb.header.tail + s.rb.header.size).toNat =
      s.rb.header.tail.toNat + s.rb.header.size.toNat := by
    rw [UInt64.toNat_add, Nat.mod_eq_of_lt (by omega)]
  simp only [refuses, ge_iff_le, gt_iff_lt, UInt64.le_iff_toNat_le,
    UInt64.lt_iff_toNat_lt, ahead, lap] at admitted
  rcases framing.head_cases with straight | ⟨around, below⟩
  · rw [if_pos (by omega), decide_eq_false_iff_not] at admitted
    omega
  · rw [if_neg (by omega), decide_eq_false_iff_not] at admitted
    omega

/-- A session that has cleared the room for an event and stored its size. -/
def cleared (evSize : UInt64) (s : RingbufSession) : RingbufSession :=
  { s with
    rb.memory := (s.rb.memory.write s.rb.header.size.toNat
        s.rb.header.head.toNat (List.replicate evSize.toNat 0)).write
      s.rb.header.size.toNat s.rb.header.head.toNat
      (littleEndian 8 evSize.toNat)
    reservedSize := evSize }

theorem reserve_refused (framing : Framing s pending)
    (inactive : s.reservedSize = 0) {sizeofT payload : UInt64}
    (refused : s.rb.refuses (roundUp (sizeofT + payload)) = true) :
    s.reserve sizeofT payload = .ok s := by
  rw [reserve, if_neg (by simp [inactive])]
  simp only [ShmRingbuf.head, framing.aligned, refused, if_true]

/-- A reservation that is not refused lies in the free part and starts with its
size. -/
theorem reserve_admitted (framing : Framing s pending)
    (inactive : s.reservedSize = 0) {sizeofT payload : UInt64}
    (large : 16 ≤ (sizeofT + payload).toNat)
    (representable : s.rb.header.head.toNat +
      padded (sizeofT + payload).toNat < 2 ^ 64)
    (admitted : s.rb.refuses (roundUp (sizeofT + payload)) = false) :
    s.reserve sizeofT payload = .ok (cleared (sizeofT + payload) s) ∧
      Framing (cleared (sizeofT + payload) s) pending := by
  have fits := framing.fits_of_not_refuses representable admitted
  have bound := le_padded (sizeofT + payload).toNat
  have headInside := framing.headInside
  have zeroes : used pending + 0 + (List.replicate
      (sizeofT + payload).toNat (0 : UInt8)).length ≤
        s.rb.header.size.toNat := by
    rw [List.length_replicate]
    omega
  let zeroed : RingbufSession :=
    { s with
      rb.memory := s.rb.memory.write s.rb.header.size.toNat
        s.rb.header.head.toNat
        (List.replicate (sizeofT + payload).toNat 0) }
  have set : s.rb.memset s.rb.header.head.toNat
      (sizeofT + payload).toNat = .ok zeroed.rb := by
    rw [memset, if_pos (by omega)]
    exact framing.store_eq zeroes
  have zeroedFraming : Framing zeroed pending :=
    { framing with
      framed := framing.framed_write zeroes
      reserved := fun active => absurd inactive active }
  have size : used pending + 0 + (littleEndian 8
      (sizeofT + payload).toNat).length ≤ zeroed.rb.header.size.toNat := by
    rw [length_littleEndian]
    change _ ≤ s.rb.header.size.toNat
    omega
  have stored : zeroed.rb.store s.rb.header.head.toNat
      (littleEndian 8 (sizeofT + payload).toNat) =
        .ok (cleared (sizeofT + payload) s).rb :=
    zeroedFraming.store_eq size
  constructor
  · rw [reserve, if_neg (by simp [inactive])]
    simp only [ShmRingbuf.head, framing.aligned, admitted, Bool.false_eq_true,
      if_false, alignedPointer_eq framing.headAligned, set, stored]
    rfl
  · refine
      { zeroedFraming with
        framed := zeroedFraming.framed_write size
        room := fits
        reserved := fun _ => ⟨large, ?_⟩ }
    have short : (littleEndian 8 (sizeofT + payload).toNat).length ≤
        zeroed.rb.header.size.toNat := by
      omega
    have written : (cleared (sizeofT + payload) s).rb.bytes
        s.rb.header.head.toNat 8 =
          littleEndian 8 (sizeofT + payload).toNat := by
      have self := Circular.window_write_self zeroed.rb.memory
        zeroed.rb.header.head.toNat short
      rw [length_littleEndian] at self
      exact self
    change ofLittleEndian ((cleared (sizeofT + payload) s).rb.bytes
      s.rb.header.head.toNat 8) = (sizeofT + payload).toNat
    rw [written, ofLittleEndian_littleEndian (UInt64.toNat_lt _)]

theorem reserve_spec (framing : Framing s pending)
    (inactive : s.reservedSize = 0) {sizeofT payload : UInt64}
    (large : 16 ≤ (sizeofT + payload).toNat)
    (representable : s.rb.header.head.toNat +
      padded (sizeofT + payload).toNat < 2 ^ 64) :
    ∃ next, s.reserve sizeofT payload = .ok next ∧ Framing next pending ∧
      next.committed = s.committed ∧ next.popped = s.popped := by
  cases refused : s.rb.refuses (roundUp (sizeofT + payload)) with
  | true =>
      exact ⟨s, framing.reserve_refused inactive refused, framing, rfl, rfl⟩
  | false =>
      obtain ⟨reserved, nextFraming⟩ :=
        framing.reserve_admitted inactive large representable refused
      exact ⟨_, reserved, nextFraming, rfl, rfl⟩

theorem framed_reserved (framing : Framing s pending)
    (active : s.reservedSize ≠ 0) :
    Framed s.rb.memory s.rb.header.size.toNat
      (s.rb.header.tail.toNat + used pending)
      [s.rb.bytes s.rb.header.head.toNat s.reservedSize.toNat] := by
  obtain ⟨large, stored⟩ := framing.reserved active
  have same : (s.rb.header.tail.toNat + used pending) %
      s.rb.header.size.toNat = s.rb.header.head.toNat %
        s.rb.header.size.toNat := by
    rw [framing.headAt, Nat.mod_mod]
  refine ⟨?_, ?_, ?_, trivial⟩
  · rw [bytes, Circular.length_window]
    exact large
  · rw [bytes, Circular.take_window _ _ _ (by omega), Circular.length_window]
    exact stored
  · rw [bytes, Circular.length_window]
    exact Circular.window_congr _ same _

theorem commit_head (framing : Framing s pending) :
    ((s.rb.header.head + roundUp s.reservedSize) % s.rb.header.size).toNat =
      (s.rb.header.tail.toNat + (used pending + padded s.reservedSize.toNat)) %
        s.rb.header.size.toNat := by
  have room := framing.room
  have mapped := framing.mapped
  have inside := framing.headInside
  have large := le_padded s.reservedSize.toNat
  have sum : (s.rb.header.head + roundUp s.reservedSize).toNat =
      s.rb.header.head.toNat + padded s.reservedSize.toNat := by
    rw [UInt64.toNat_add, roundUp_of_small (by omega)]
    exact Nat.mod_eq_of_lt (by omega)
  rw [UInt64.toNat_mod, sum, framing.headAt, Nat.mod_add_mod, Nat.add_assoc]

theorem commit_append (framing : Framing s pending)
    (active : s.reservedSize ≠ 0)
    (spare : used pending + padded s.reservedSize.toNat <
      s.rb.header.size.toNat) :
    ∃ next event, s.commit = .ok next ∧ Framing next (pending ++ [event]) ∧
      next.committed = s.committed ++ [event] ∧ next.popped = s.popped := by
  let event := s.rb.bytes s.rb.header.head.toNat s.reservedSize.toNat
  have length : event.length = s.reservedSize.toNat :=
    Circular.length_window _ _ _ _
  have total : used (pending ++ [event]) =
      used pending + padded s.reservedSize.toNat := by
    rw [used_append, used_cons, used_nil, length, Nat.add_zero]
  let next : RingbufSession :=
    { s with
      rb := s.rb.advanceHead s.reservedSize
      reservedSize := 0
      committed := s.committed ++ [event] }
  refine ⟨next, event, by rw [commit, if_neg active], ?_, rfl, rfl⟩
  refine
    { sizePositive := framing.sizePositive
      sizeAligned := framing.sizeAligned
      mapped := framing.mapped
      tailInside := framing.tailInside
      tailAligned := framing.tailAligned
      headAt := ?_
      notFull := total ▸ spare
      framed := framing.framed.append (framing.framed_reserved active)
      room := ?_
      reserved := fun active => absurd rfl active }
  · rw [total]
    exact framing.commit_head
  · change used (pending ++ [event]) + padded (0 : UInt64).toNat ≤ _
    rw [total, padded_zero]
    exact Nat.le_of_lt spare

theorem commit_full (framing : Framing s pending)
    (active : s.reservedSize ≠ 0)
    (full : used pending + padded s.reservedSize.toNat =
      s.rb.header.size.toNat) :
    ∃ next event, s.commit = .ok next ∧ Framing next [] ∧
      next.committed = s.committed ++ [event] ∧ next.popped = s.popped := by
  let event := s.rb.bytes s.rb.header.head.toNat s.reservedSize.toNat
  let next : RingbufSession :=
    { s with
      rb := s.rb.advanceHead s.reservedSize
      reservedSize := 0
      committed := s.committed ++ [event] }
  refine ⟨next, event, by rw [commit, if_neg active], ?_, rfl, rfl⟩
  refine
    { sizePositive := framing.sizePositive
      sizeAligned := framing.sizeAligned
      mapped := framing.mapped
      tailInside := framing.tailInside
      tailAligned := framing.tailAligned
      headAt := ?_
      notFull := framing.sizePositive
      framed := trivial
      room := ?_
      reserved := fun active => absurd rfl active }
  · have ahead := framing.commit_head
    rw [full, Nat.add_mod_right] at ahead
    exact ahead
  · change used [] + padded (0 : UInt64).toNat ≤ _
    rw [used_nil, padded_zero]
    exact Nat.zero_le _

/-- A reservation whose rounded end overflows is admitted, and then clears
memory outside the mappings. -/
theorem representable_of_reserve (framing : Framing s pending)
    (inactive : s.reservedSize = 0) {sizeofT payload : UInt64}
    {next : RingbufSession} (reserved : s.reserve sizeofT payload = .ok next) :
    s.rb.header.head.toNat + padded (sizeofT + payload).toNat < 2 ^ 64 := by
  by_contra overflow
  have mapped := framing.mapped
  have sizeAligned := framing.sizeAligned
  have tailInside := framing.tailInside
  have headInside := framing.headInside
  have bound := (sizeofT + payload).toNat_lt
  have padding : padded (sizeofT + payload).toNat ≤
      (sizeofT + payload).toNat + 7 ∧
        padded (sizeofT + payload).toNat ≤ 2 ^ 64 := by
    unfold padded
    omega
  have ahead :
      (s.rb.header.head + roundUp (sizeofT + payload)).toNat ≤
        s.rb.header.head.toNat := by
    rw [UInt64.toNat_add, roundUp_toNat, Nat.add_mod_mod]
    omega
  have lap : (s.rb.header.tail + s.rb.header.size).toNat =
      s.rb.header.tail.toNat + s.rb.header.size.toNat := by
    rw [UInt64.toNat_add, Nat.mod_eq_of_lt (by omega)]
  have admitted : s.rb.refuses (roundUp (sizeofT + payload)) = false := by
    simp only [refuses, ge_iff_le, gt_iff_lt, UInt64.le_iff_toNat_le,
      UInt64.lt_iff_toNat_lt, lap]
    split
    · rw [decide_eq_false_iff_not]
      omega
    · rw [decide_eq_false_iff_not]
      omega
  have faults : s.rb.memset s.rb.header.head.toNat
      (sizeofT + payload).toNat = .error .invalidAccess := by
    rw [memset, if_neg (by omega)]
  rw [reserve, if_neg (by simp [inactive])] at reserved
  simp only [ShmRingbuf.head, framing.aligned, admitted, Bool.false_eq_true,
    if_false, alignedPointer_eq framing.headAligned, faults] at reserved
  cases reserved

end Framing

end RingbufSession

end Lo2s
