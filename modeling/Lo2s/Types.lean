/-!
# Identifiers and failures

Wrapped machine integers of the source, and the ways one of its operations can
stop early.
-/

namespace Lo2s

/-- `lo2s::Process`, a wrapped `int64_t`. -/
structure Process where
  pid : Int64
  deriving DecidableEq, Repr

/-- `lo2s::Thread`, a wrapped `int64_t`. -/
structure Thread where
  tid : Int64
  deriving DecidableEq, Repr

/-- `otf2::chrono::time_point`, counted in clock ticks. -/
abbrev TimePoint := Int

/-- `perf::time::Converter`. -/
structure Converter where
  offset : Int
  deriving Repr

/-- `operator()` on a raw time, a signed number of nanoseconds. -/
def Converter.convert (converter : Converter) (perfRaw : UInt64) : TimePoint :=
  perfRaw.toInt64.toInt + converter.offset

/-- `otf2::common::io_operation_mode_type`, the modes a begin is written with. -/
inductive IoOperationMode where
  | read
  | write
  deriving DecidableEq, Repr

/-- Why an operation did not return: an exception, a failed `assert`, or an
access outside the memory it may touch. -/
inductive Failure where
  | runtimeError (what : String)
  | outOfRange
  | assertion (condition : String)
  | invalidAccess
  deriving DecidableEq, Repr

inductive ExecutionScope where
  | thread (thread : Thread)
  | process (process : Process)
  | cpu (cpu : Int64)
  deriving DecidableEq, Repr

namespace ExecutionScope

def isCpu : ExecutionScope → Bool
  | .cpu _ => true
  | _ => false

def asThread : ExecutionScope → Except Failure Thread
  | .thread id => .ok id
  | _ => .error (.assertion "type == ExecutionScopeType::THREAD")

def asProcess : ExecutionScope → Except Failure Process
  | .process id => .ok id
  | _ => .error (.assertion "type == ExecutionScopeType::PROCESS")

end ExecutionScope

end Lo2s
