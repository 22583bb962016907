import Lo2s.EventAttr
import Lo2s.Foundation.LexOrder
import Lo2s.Foundation.LittleEndian
import Mathlib.Algebra.Order.Field.Rat

/-!
# Collections of counters

A collection has a leader, if it is read as a group, and counters.  Events are
told apart by the bytes of their `perf_event_attr` only: the name, the scale and
the unit of an event take no part in any comparison.
-/

namespace Lo2s

open Foundation

/-- What the composer sets of a `perf_event_attr`. -/
structure SamplingAttr where
  samplePeriod : UInt64
  sampleType : UInt64
  freq : Bool
  useClockid : Bool
  watermark : Bool
  wakeupWatermark : UInt32
  clockid : UInt32

/-- `EventAttr` with all that counters need of it. -/
structure CounterEvent extends EventAttr where
  sampling : SamplingAttr
  scale : ℚ
  unit : String

namespace CounterEvent

def setSampleType (format : UInt64) (ev : CounterEvent) : CounterEvent :=
  { ev with sampling.sampleType := ev.sampling.sampleType ||| format }

def samplePeriod (period : UInt64) (ev : CounterEvent) : CounterEvent :=
  { ev with
    sampling.freq := false
    sampling.samplePeriod := period }

def sampleFreq (freq : UInt64) (ev : CounterEvent) : CounterEvent :=
  { ev with
    sampling.freq := true
    sampling.samplePeriod := freq }

def setClockid (clockid : Option UInt32) (ev : CounterEvent) : CounterEvent :=
  match clockid with
  | none => { ev with sampling.useClockid := false }
  | some clockid => { ev with
      sampling.useClockid := true
      sampling.clockid := clockid }

def setReadFormat (readFormat : UInt64) (ev : CounterEvent) : CounterEvent :=
  { ev with attr.readFormat := readFormat }

def setWatermark (bytes : UInt32) (ev : CounterEvent) : CounterEvent :=
  { ev with
    sampling.watermark := true
    sampling.wakeupWatermark := bytes }

/-- The bit field of a `perf_event_attr`. -/
def flags (ev : CounterEvent) : Nat :=
  ev.attr.excludeKernel.toNat * 2 ^ 5 + ev.sampling.freq.toNat * 2 ^ 10 +
    ev.sampling.watermark.toNat * 2 ^ 14 + ev.sampling.useClockid.toNat * 2 ^ 25

/-- The bytes of `attr_`, up to those that are zero in every event. -/
def bytes (ev : CounterEvent) : List UInt8 :=
  littleEndian 4 ev.attr.type.toNat ++ littleEndian 4 136 ++
    littleEndian 8 ev.attr.config.toNat ++
    littleEndian 8 ev.sampling.samplePeriod.toNat ++
    littleEndian 8 ev.sampling.sampleType.toNat ++
    littleEndian 8 ev.attr.readFormat.toNat ++ littleEndian 8 ev.flags ++
    littleEndian 4 ev.sampling.wakeupWatermark.toNat ++ littleEndian 4 0 ++
    littleEndian 8 ev.attr.config1.toNat ++ littleEndian 28 0 ++
    littleEndian 4 ev.sampling.clockid.toNat

/-- `operator==`. -/
def eq (lhs rhs : CounterEvent) : Bool := lhs.bytes == rhs.bytes

/-- `memcmp` of as many bytes, which tells the smaller operand. -/
instance : KeyOrder UInt8 :=
  .ofRank UInt8.toNat (fun left right => left < right) fun _ _ => by
    rw [decide_eq_true_iff]
    exact UInt8.lt_iff_toNat_lt

/-- `operator<`, which hands the operands to `memcmp` the other way round. -/
def less (lhs rhs : CounterEvent) : Bool :=
  KeyOrder.listBefore rhs.bytes lhs.bytes

instance : KeyOrder CounterEvent :=
  @KeyOrder.comap _ _ (KeyOrder.reverse (List UInt8)) bytes

theorem equivalent_byte {left right : UInt8} :
    KeyOrder.Equivalent left right ↔ left = right := by
  change decide (left < right) = false ∧ decide (right < left) = false ↔ _
  rw [decide_eq_false_iff_not, decide_eq_false_iff_not, UInt8.not_lt,
    UInt8.not_lt]
  constructor
  · rintro ⟨above, below⟩
    exact UInt8.le_antisymm below above
  · rintro rfl
    exact ⟨UInt8.le_refl left, UInt8.le_refl left⟩

theorem equivalent_bytes {left right : List UInt8} :
    KeyOrder.Equivalent left right ↔ left = right := by
  have equal : (KeyOrder.Equivalent : UInt8 → UInt8 → Prop) = Eq := by
    funext left right
    exact propext equivalent_byte
  rw [KeyOrder.equivalent_list, KeyOrder.EquivalentPaths, equal,
    List.forall₂_eq_eq_eq]

theorem equivalent_iff {lhs rhs : CounterEvent} :
    KeyOrder.Equivalent lhs rhs ↔ lhs.bytes = rhs.bytes := by
  rw [← equivalent_bytes]
  exact ⟨KeyOrder.Equivalent.symm, KeyOrder.Equivalent.symm⟩

theorem eq_iff {lhs rhs : CounterEvent} :
    lhs.eq rhs = true ↔ KeyOrder.Equivalent lhs rhs := by
  rw [eq, beq_iff_eq, equivalent_iff]

end CounterEvent

structure CounterCollection where
  leader : Option CounterEvent
  counters : List CounterEvent

namespace CounterCollection

def empty (collection : CounterCollection) : Bool :=
  collection.leader.isNone && collection.counters.isEmpty

/-- `get_scale`; the index 0 is that of the leader. -/
def getScale (index : Nat) (collection : CounterCollection) :
    Except Failure ℚ :=
  if index = 0 then
    match collection.leader with
    | none => .error
        (.runtimeError "Trying to get scale for non-existent leader!")
    | some leader => .ok leader.scale
  else
    match collection.counters[index - 1]? with
    | none => .error .invalidAccess
    | some counter => .ok counter.scale

/-- `operator==` of `std::optional`. -/
def leaderEq : Option CounterEvent → Option CounterEvent → Bool
  | none, none => true
  | some lhs, some rhs => lhs.eq rhs
  | _, _ => false

/-- `operator<`. -/
def less (lhs rhs : CounterCollection) : Bool :=
  if leaderEq lhs.leader rhs.leader then
    KeyOrder.listBefore lhs.counters rhs.counters
  else KeyOrder.optionBefore lhs.leader rhs.leader

theorem leaderEq_iff {lhs rhs : Option CounterEvent} :
    leaderEq lhs rhs = true ↔ KeyOrder.Equivalent lhs rhs := by
  rw [KeyOrder.equivalent_option]
  constructor
  · intro same
    cases lhs with
    | none =>
        cases rhs with
        | none => exact .none
        | some rhs => cases same
    | some lhs =>
        cases rhs with
        | none => cases same
        | some rhs => exact .some (CounterEvent.eq_iff.mp same)
  · intro related
    cases related with
    | none => rfl
    | some same => exact CounterEvent.eq_iff.mpr same

theorem less_eq_pairBefore (lhs rhs : CounterCollection) :
    less lhs rhs = KeyOrder.pairBefore (lhs.leader, lhs.counters)
      (rhs.leader, rhs.counters) := by
  rcases KeyOrder.before_cases lhs.leader rhs.leader with
    before | after | same
  · have differs : ¬ leaderEq lhs.leader rhs.leader = true := by
      rw [leaderEq_iff]
      exact fun same => Bool.false_ne_true (same.1.symm.trans before)
    rw [less, if_neg differs, KeyOrder.pairBefore, if_pos before]
    exact before
  · have notBefore := KeyOrder.not_before_of_before after
    have differs : ¬ leaderEq lhs.leader rhs.leader = true := by
      rw [leaderEq_iff]
      exact fun same => Bool.false_ne_true (same.2.symm.trans after)
    rw [less, if_neg differs, KeyOrder.pairBefore,
      if_neg (Bool.eq_false_iff.mp notBefore), if_pos after]
    exact notBefore
  · rw [less, if_pos (leaderEq_iff.mpr same), KeyOrder.pairBefore, same.1,
      same.2]
    rfl

instance : KeyOrder CounterCollection :=
  @KeyOrder.copy _ (KeyOrder.comap fun collection : CounterCollection =>
    (collection.leader, collection.counters)) less less_eq_pairBefore

/-- The events that the counters of a group are opened for, in that order. -/
def events (collection : CounterCollection) : List CounterEvent :=
  collection.leader.toList ++ collection.counters

theorem equivalent_iff {lhs rhs : CounterCollection} :
    KeyOrder.Equivalent lhs rhs ↔
      Option.Rel KeyOrder.Equivalent lhs.leader rhs.leader ∧
        KeyOrder.EquivalentPaths lhs.counters rhs.counters := by
  rw [← KeyOrder.equivalent_option, ← KeyOrder.equivalent_list]
  change less lhs rhs = false ∧ less rhs lhs = false ↔ _
  rw [less_eq_pairBefore, less_eq_pairBefore]
  apply KeyOrder.not_pairBefore_iff

end CounterCollection

end Lo2s
