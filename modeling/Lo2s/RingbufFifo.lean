import Lo2s.Foundation.Run
import Lo2s.RingbufFraming

/-!
# The ring buffer as a queue

The framing survives every operation except a reservation so large that the
sum in its admission test overflows.  Events are lost on top of that when one
fills the free part completely, since head and tail are then equal and the
buffer looks empty.
-/

namespace Lo2s

open Foundation ShmRingbuf

theorem EventRequest.size_eq (request : EventRequest) :
    (request.sizeofT + request.payload).toNat =
      request.sizeofT.toNat + request.payload.toNat := by
  rw [UInt64.toNat_add, Nat.mod_eq_of_lt request.representable]

namespace RingbufSession

/-- The end of the rounded event is no longer a 64-bit number. -/
def Overflows (s : RingbufSession) : RingbufStep → Prop
  | .reserve request =>
      2 ^ 64 ≤ s.rb.header.head.toNat +
        padded (request.sizeofT.toNat + request.payload.toNat)
  | _ => False

/-- The committed event fills the free part of the buffer completely. -/
def FillsUp (s : RingbufSession) : RingbufStep → Prop
  | .commit =>
      (s.rb.header.head.toNat + s.rb.header.size.toNat -
          s.rb.header.tail.toNat) % s.rb.header.size.toNat +
        padded s.reservedSize.toNat = s.rb.header.size.toNat
  | _ => False

/-- The popped events are the first committed ones, and the buffer is empty
only when all of them are popped. -/
structure Lossless (s : RingbufSession) : Prop where
  fifo : s.popped <+: s.committed
  empty : ∃ isEmpty, RingbufReader.empty s.rb = .ok isEmpty ∧
    (isEmpty = true → s.popped = s.committed)

/-- The bytes from tail to head are whole committed events, which the reader
takes one by one, and what is handed out lies inside the two mappings. -/
structure Synchronised (s : RingbufSession) (pending : List (List UInt8)) :
    Prop where
  headInside : s.rb.header.head < s.rb.header.size
  tailInside : s.rb.header.tail < s.rb.header.size
  headAligned : s.rb.header.head.toNat % 8 = 0
  tailAligned : s.rb.header.tail.toNat % 8 = 0
  committed : pending <:+ s.committed
  framed : Framed s.rb.memory s.rb.header.size.toNat s.rb.header.tail.toNat
    pending
  extent : used pending = (s.rb.header.head.toNat + s.rb.header.size.toNat -
    s.rb.header.tail.toNat) % s.rb.header.size.toNat
  empty : RingbufReader.empty s.rb = .ok pending.isEmpty
  get : pending ≠ [] → RingbufReader.get s.rb = .ok (some s.rb.header.tail)
  pop : ∀ event events, pending = event :: events →
    ∃ next, s.pop = .ok next ∧ next.rb.header.tail.toNat =
      (s.rb.header.tail.toNat + padded event.length) %
        s.rb.header.size.toNat ∧ next.popped = s.popped ++ [event]
  handedToWriter : s.rb.header.head.toNat + s.reservedSize.toNat ≤
    2 * s.rb.header.size.toNat
  handedToReader : ∀ event ∈ pending,
    s.rb.header.tail.toNat + event.length ≤ 2 * s.rb.header.size.toNat

theorem Framing.used_eq {s : RingbufSession} {pending : List (List UInt8)}
    (framing : Framing s pending) :
    used pending = (s.rb.header.head.toNat + s.rb.header.size.toNat -
      s.rb.header.tail.toNat) % s.rb.header.size.toNat := by
  have notFull := framing.notFull
  rcases framing.head_cases with straight | ⟨around, _⟩
  · have distance : s.rb.header.head.toNat + s.rb.header.size.toNat -
        s.rb.header.tail.toNat = used pending + s.rb.header.size.toNat := by
      omega
    rw [distance, Nat.add_mod_right, Nat.mod_eq_of_lt notFull]
  · have distance : s.rb.header.head.toNat + s.rb.header.size.toNat -
        s.rb.header.tail.toNat = used pending := by
      omega
    rw [distance, Nat.mod_eq_of_lt notFull]

theorem length_le_used {events : List (List UInt8)} {event : List UInt8}
    (member : event ∈ events) : event.length ≤ used events := by
  induction events with
  | nil => cases member
  | cons first events induction =>
      rw [used_cons]
      rcases List.mem_cons.mp member with same | later
      · rw [same]
        exact Nat.le_trans (le_padded _) (Nat.le_add_right _ _)
      · exact Nat.le_trans (induction later) (Nat.le_add_left _ _)

theorem Framing.synchronised {s : RingbufSession}
    {pending : List (List UInt8)} (framing : Framing s pending)
    (committed : pending <:+ s.committed) : Synchronised s pending where
  headInside := UInt64.lt_iff_toNat_lt.mpr framing.headInside
  tailInside := UInt64.lt_iff_toNat_lt.mpr framing.tailInside
  headAligned := framing.headAligned
  tailAligned := framing.tailAligned
  committed := committed
  framed := framing.framed
  extent := framing.used_eq
  empty := framing.empty_eq
  get := fun some' => by rw [framing.get_eq, if_neg some']
  pop := by
    rintro event events rfl
    obtain ⟨next, popped, _, tail, _, log⟩ := framing.pop_cons
    exact ⟨next, popped, tail, log⟩
  handedToWriter := by
    have inside := framing.headInside
    have room := framing.room
    have large := le_padded s.reservedSize.toNat
    omega
  handedToReader := by
    intro event member
    have inside := framing.tailInside
    have notFull := framing.notFull
    have short := length_le_used member
    omega

/-- What an operation does to the logs and to the pending events. -/
inductive Effect (s : RingbufSession) (op : RingbufStep)
    (next : RingbufSession) (pending : List (List UInt8)) :
    List (List UInt8) → Prop where
  | same : ¬ s.FillsUp op → next.committed = s.committed →
      next.popped = s.popped → Effect s op next pending pending
  | commit (event : List UInt8) : ¬ s.FillsUp op →
      next.committed = s.committed ++ [event] → next.popped = s.popped →
      Effect s op next pending (pending ++ [event])
  | pop (event : List UInt8) (events : List (List UInt8)) :
      ¬ s.FillsUp op → pending = event :: events →
      next.committed = s.committed → next.popped = s.popped ++ [event] →
      Effect s op next pending events
  | lose (event : List UInt8) : s.FillsUp op →
      next.committed = s.committed ++ [event] → next.popped = s.popped →
      Effect s op next pending []

/-- Every operation that overflows nothing succeeds and keeps the framing. -/
theorem Framing.step {s : RingbufSession} {pending : List (List UInt8)}
    (framing : Framing s pending) {op : RingbufStep} (allowed : s.Allowed op)
    (representable : ¬ s.Overflows op) :
    ∃ next after, s.step op = .ok next ∧ Framing next after ∧
      Effect s op next pending after := by
  cases op with
  | reserve request =>
      have large : 16 ≤ (request.sizeofT + request.payload).toNat := by
        have header := UInt64.le_iff_toNat_le.mp request.header
        rw [request.size_eq]
        exact Nat.le_trans header (Nat.le_add_right _ _)
      have fits : s.rb.header.head.toNat +
          padded (request.sizeofT + request.payload).toNat < 2 ^ 64 := by
        rw [request.size_eq]
        exact Nat.lt_of_not_le representable
      obtain ⟨next, stepped, nextFraming, committed, popped⟩ :=
        framing.reserve_spec allowed large fits
      exact ⟨next, pending, stepped, nextFraming, .same id committed popped⟩
  | fill offset byte =>
      obtain ⟨next, stepped, nextFraming, committed, popped⟩ :=
        framing.fill_spec allowed.1 allowed.2 byte
      exact ⟨next, pending, stepped, nextFraming, .same id committed popped⟩
  | commit =>
      have fillsUp : s.FillsUp .commit ↔
          used pending + padded s.reservedSize.toNat =
            s.rb.header.size.toNat := by
        rw [framing.used_eq]
        rfl
      by_cases full : s.FillsUp .commit
      · obtain ⟨next, event, stepped, nextFraming, committed, popped⟩ :=
          framing.commit_full allowed (fillsUp.mp full)
        exact ⟨next, [], stepped, nextFraming, .lose event full committed popped⟩
      · have spare : used pending + padded s.reservedSize.toNat <
            s.rb.header.size.toNat := by
          apply Nat.lt_of_le_of_ne framing.room
          exact fun same => full (fillsUp.mpr same)
        obtain ⟨next, event, stepped, nextFraming, committed, popped⟩ :=
          framing.commit_append allowed spare
        exact ⟨next, _, stepped, nextFraming, .commit event full committed popped⟩
  | empty =>
      refine ⟨s, pending, ?_, framing, .same id rfl rfl⟩
      rw [RingbufSession.step, framing.empty_eq]
  | get =>
      refine ⟨s, pending, ?_, framing, .same id rfl rfl⟩
      rw [RingbufSession.step, framing.get_eq]
  | pop =>
      cases pending with
      | nil => exact ⟨s, [], framing.pop_nil, framing, .same id rfl rfl⟩
      | cons event events =>
          obtain ⟨next, stepped, nextFraming, _, committed, popped⟩ :=
            framing.pop_cons
          exact ⟨next, events, stepped, nextFraming,
            .pop event events id rfl committed popped⟩

theorem Framing.not_overflows {s next : RingbufSession}
    {pending : List (List UInt8)} (framing : Framing s pending)
    {op : RingbufStep} (allowed : s.Allowed op)
    (stepped : s.step op = .ok next) : ¬ s.Overflows op := by
  cases op with
  | reserve request =>
      have fits := framing.representable_of_reserve allowed stepped
      rw [request.size_eq] at fits
      exact Nat.not_le_of_lt fits
  | _ => exact id

/-- Along every interleaving of the two sides, no event is lost, changed or
reordered exactly when no reservation overflows and no committed event fills
the free part of the buffer completely. -/
theorem lossless_iff (size : BufferSize) (memory : Circular UInt8)
    {ops : List RingbufStep}
    (allowed : AllowedRun RingbufSession.step Allowed (.start size memory) ops) :
    Always RingbufSession.step (.start size memory) (fun _ s => Lossless s)
      ops ↔
    EveryStep RingbufSession.step (.start size memory)
      (fun s op => ¬ s.Overflows op ∧ ¬ s.FillsUp op) ops := by
  refine always_iff (fun _ s => ∃ pending, Framing s pending ∧
      s.committed = s.popped ++ pending) ?_ ?_ ?_
    ⟨[], .start size memory, rfl⟩ allowed
  · intro _ s holds
    obtain ⟨pending, framing, logs⟩ := holds
    refine ⟨⟨pending, logs.symm⟩, pending.isEmpty, framing.empty_eq, ?_⟩
    intro isEmpty
    rw [logs, List.isEmpty_iff.mp isEmpty, List.append_nil]
  · intro _ s op holds allowed both
    obtain ⟨pending, framing, logs⟩ := holds
    obtain ⟨representable, notFull⟩ := both
    obtain ⟨next, after, stepped, nextFraming, effect⟩ :=
      framing.step allowed representable
    refine ⟨next, stepped, after, nextFraming, ?_⟩
    cases effect with
    | same _ committed popped => rw [committed, popped, logs]
    | commit event _ committed popped =>
        rw [committed, popped, logs, List.append_assoc]
    | pop event events _ shape committed popped =>
        rw [committed, popped, logs, shape, List.append_assoc]
        rfl
    | lose event full => exact absurd full notFull
  · intro _ s op next holds allowed stepped lossless
    obtain ⟨pending, framing, logs⟩ := holds
    have representable := framing.not_overflows allowed stepped
    refine ⟨representable, fun full => ?_⟩
    obtain ⟨same, after, sameStep, nextFraming, effect⟩ :=
      framing.step allowed representable
    rw [stepped, Except.ok.injEq] at sameStep
    subst sameStep
    cases effect with
    | same notFull => exact notFull full
    | commit _ notFull => exact notFull full
    | pop _ _ notFull => exact notFull full
    | lose event _ committed popped =>
        -- The buffer looks empty, but the new event has not been popped.
        obtain ⟨isEmpty, answer, all⟩ := lossless.empty
        rw [nextFraming.empty_eq, Except.ok.injEq] at answer
        have lengths := congrArg List.length (all answer.symm)
        rw [committed, popped, logs] at lengths
        simp only [List.length_append, List.length_singleton] at lengths
        omega

/-- A buffer of 64 bytes. -/
def smallBuffer : RingbufSession :=
  .start ⟨64, by decide, by decide, by decide⟩ fun _ => 0

/-- An event of 24 bytes, written and read. -/
def oneEvent : List RingbufStep :=
  [.reserve ⟨16, 8, by decide, by decide⟩, .fill 16 7, .commit, .get, .pop,
    .empty]

theorem lossless_iff_oneEvent :
    Always RingbufSession.step smallBuffer (fun _ s => Lossless s) oneEvent ↔
      EveryStep RingbufSession.step smallBuffer
        (fun s op => ¬ s.Overflows op ∧ ¬ s.FillsUp op) oneEvent :=
  lossless_iff _ _ (by decide)

/-- An event of the size of the buffer is admitted and then lost. -/
theorem full_buffer_lost :
    ∃ s, run RingbufSession.step smallBuffer
        [.reserve ⟨16, 48, by decide, by decide⟩, .commit] = .ok s ∧
      RingbufReader.empty s.rb = .ok true ∧ s.committed.length = 1 ∧
        s.popped = [] ∧ ¬ Lossless s := by
  refine ⟨_, rfl, rfl, rfl, rfl, fun lossless => ?_⟩
  obtain ⟨isEmpty, answer, all⟩ := lossless.empty
  cases answer
  exact absurd (congrArg List.length (all rfl)) (by decide)

/-- Along every interleaving of the two sides, the reader and the writer stay
in step exactly when no reservation overflows. -/
theorem synchronised_iff (size : BufferSize) (memory : Circular UInt8)
    {ops : List RingbufStep}
    (allowed : AllowedRun RingbufSession.step Allowed (.start size memory) ops) :
    Always RingbufSession.step (.start size memory)
      (fun _ s => ∃ pending, Synchronised s pending) ops ↔
    EveryStep RingbufSession.step (.start size memory)
      (fun s op => ¬ s.Overflows op) ops := by
  refine always_iff (fun _ s => ∃ pending, Framing s pending ∧
      pending <:+ s.committed) ?_ ?_ ?_
    ⟨[], .start size memory, List.nil_suffix⟩ allowed
  · intro _ s holds
    obtain ⟨pending, framing, committed⟩ := holds
    exact ⟨pending, framing.synchronised committed⟩
  · intro _ s op holds allowed representable
    obtain ⟨pending, framing, suffix⟩ := holds
    obtain ⟨next, after, stepped, nextFraming, effect⟩ :=
      framing.step allowed representable
    refine ⟨next, stepped, after, nextFraming, ?_⟩
    cases effect with
    | same _ committed => exact committed ▸ suffix
    | commit event _ committed =>
        obtain ⟨earlier, rfl'⟩ := suffix
        exact ⟨earlier, by rw [committed, ← rfl', List.append_assoc]⟩
    | pop event events _ shape committed =>
        rw [committed]
        exact (shape ▸ List.suffix_cons event after).trans suffix
    | lose event => exact List.nil_suffix
  · intro _ s op next holds allowed stepped _
    obtain ⟨pending, framing, _⟩ := holds
    exact framing.not_overflows allowed stepped

theorem synchronised_iff_oneEvent :
    Always RingbufSession.step smallBuffer
        (fun _ s => ∃ pending, Synchronised s pending) oneEvent ↔
      EveryStep RingbufSession.step smallBuffer
        (fun s op => ¬ s.Overflows op) oneEvent :=
  synchronised_iff _ _ (by decide)

/-- A size just below the largest number is rounded up to zero, admitted, and
cleared far outside the mappings. -/
theorem huge_event_faults :
    run RingbufSession.step smallBuffer
      [.reserve ⟨16, 0 - 19, by decide, by decide⟩] =
        .error .invalidAccess :=
  rfl

end RingbufSession

end Lo2s
