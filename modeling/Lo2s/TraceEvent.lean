import Lo2s.Types

/-!
# Events of a location

What the source writes to an `otf2::writer::local`, in writing order.
-/

namespace Lo2s

/-- One event of a location. -/
inductive TraceEvent where
  | callingContextEnter (tp : TimePoint) (ref : Nat) (unwindDistance : Nat)
  | callingContextLeave (tp : TimePoint) (ref : Nat)
  | callingContextSample (tp : TimePoint) (ref : Nat)
      (unwindDistance : UInt64) (interruptGenerator : Nat)
  | metric (tp : TimePoint) (value : Int64)
  | threadBegin (tp : TimePoint) (comm : Nat)
  | threadEnd (tp : TimePoint) (comm : Nat)
  deriving DecidableEq, Repr

namespace TraceEvent

def timestamp : TraceEvent → TimePoint
  | .callingContextEnter tp _ _ => tp
  | .callingContextLeave tp _ => tp
  | .callingContextSample tp _ _ _ => tp
  | .metric tp _ => tp
  | .threadBegin tp _ => tp
  | .threadEnd tp _ => tp

/-- The local calling-context reference an event carries. -/
def cctxRef? : TraceEvent → Option Nat
  | .callingContextEnter _ ref _ => some ref
  | .callingContextLeave _ ref => some ref
  | .callingContextSample _ ref _ _ => some ref
  | _ => none

end TraceEvent

end Lo2s
