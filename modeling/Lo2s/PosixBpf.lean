import Lo2s.PosixMonitor

/-!
# The BPF program of the POSIX I/O monitor

The BPF program runs in the kernel, on the thread whose system call it is
attached to.  It writes events for the threads in `pids` into a ring buffer,
which `PosixMonitor` polls.  The name of a file is known before the file
descriptor is, so the program keeps it in `open_cache` in between.

Both maps are LRU maps, whose entries the kernel may evict.
-/

namespace Lo2s

open Foundation

/-- The maps of the BPF program and its ring buffer, whose oldest event comes
first. -/
structure PosixIoBpf where
  pids : FiniteMap UInt32 Int8
  openCache : FiniteMap UInt32 String
  rb : List PosixEvent

/-- The key of a thread in `pids`. -/
def Thread.pid (thread : Thread) : UInt32 := thread.tid.toInt32.toUInt32

/-- What a call of the BPF program finds: the thread it runs on, the time,
whether there is room in the ring buffer, and what the memory there holds. -/
structure BpfCall where
  pid : UInt32
  time : UInt64
  room : Bool
  stale : Int32
  deriving DecidableEq, Repr

/-- Where the BPF program is attached.  A name is a string of single bytes. -/
inductive PosixProbe where
  | doFilpOpen (name : String)
  | sysExitOpenat (ret : Int64)
  | sysEnterClose (fd : UInt64)
  | sysEnterRw (mode : IoOperationMode) (fd buf count : UInt64)
  | sysExitRw (mode : IoOperationMode)
  deriving DecidableEq, Repr

/-- `bpf_probe_read_kernel_str(name, 256, name_ptr)`. -/
def readKernelStr (name : String) : String :=
  String.ofList (name.toList.take 255)

namespace PosixIoBpf

/-- Both maps and the ring buffer as the program is loaded. -/
def load : PosixIoBpf := ⟨∅, ∅, []⟩

/-- `insert_thread`, without `last_fd_`. -/
def insertThread (thread : Thread) (b : PosixIoBpf) : PosixIoBpf :=
  { b with pids := b.pids.insert thread.pid 1 }

def exitThread (thread : Thread) (b : PosixIoBpf) : PosixIoBpf :=
  { b with pids := b.pids.erase thread.pid }

/-- `bpf_ringbuf_reserve` and `bpf_ringbuf_submit`. -/
def submit (call : BpfCall) (event : PosixEvent) (b : PosixIoBpf) :
    PosixIoBpf :=
  if call.room then { b with rb := b.rb ++ [event] } else b

/-- The header of an event about a file descriptor. -/
def header (call : BpfCall) (fd : Int32) : PosixEventHeader :=
  ⟨call.time, call.pid.toInt32, fd⟩

def doFilpOpen (call : BpfCall) (name : String) (b : PosixIoBpf) :
    PosixIoBpf :=
  if call.pid ∈ b.pids then
    { b with openCache := b.openCache.insert call.pid (readKernelStr name) }
  else b

def handleOpenatRet (call : BpfCall) (ret : Int64) (b : PosixIoBpf) :
    PosixIoBpf :=
  if ret < 0 then b
  else if call.pid ∈ b.pids then
    match b.openCache.lookup call.pid with
    | none => b
    | some filename =>
        b.submit call (.openFile (header call ret.toInt32) filename)
  else b

def handleClose (call : BpfCall) (fd : UInt64) (b : PosixIoBpf) :
    PosixIoBpf :=
  if call.pid ∈ b.pids then
    b.submit call (.closeFile (header call fd.toUInt32.toInt32))
  else b

/-- The entry to a read or a write. -/
def handleEnterRw (mode : IoOperationMode) (call : BpfCall)
    (fd buf count : UInt64) (b : PosixIoBpf) : PosixIoBpf :=
  if call.pid ∈ b.pids then
    b.submit call (.enter mode
      ⟨header call fd.toUInt32.toInt32, buf.toInt64, count.toInt64⟩)
  else b

def handleEnterRead : BpfCall → UInt64 → UInt64 → UInt64 → PosixIoBpf →
    PosixIoBpf :=
  handleEnterRw .read

def handleEnterWrite : BpfCall → UInt64 → UInt64 → UInt64 → PosixIoBpf →
    PosixIoBpf :=
  handleEnterRw .write

/-- The exit of a read or a write, which does not set the file descriptor. -/
def handleExitRw (mode : IoOperationMode) (call : BpfCall) (b : PosixIoBpf) :
    PosixIoBpf :=
  if call.pid ∈ b.pids then
    b.submit call (.exit mode (header call call.stale))
  else b

def handleExitRead : BpfCall → PosixIoBpf → PosixIoBpf := handleExitRw .read

def handleExitWrite : BpfCall → PosixIoBpf → PosixIoBpf := handleExitRw .write

/-- The function that is attached to a probe. -/
def handle (call : BpfCall) : PosixProbe → PosixIoBpf → PosixIoBpf
  | .doFilpOpen name => doFilpOpen call name
  | .sysExitOpenat ret => handleOpenatRet call ret
  | .sysEnterClose fd => handleClose call fd
  | .sysEnterRw .read fd buf count => handleEnterRead call fd buf count
  | .sysEnterRw .write fd buf count => handleEnterWrite call fd buf count
  | .sysExitRw .read => handleExitRead call
  | .sysExitRw .write => handleExitWrite call

end PosixIoBpf

/-- The BPF program and the monitor. -/
structure PosixPipeline (ρ η : Type) where
  bpf : PosixIoBpf
  monitor : PosixMonitor ρ η

/-- One of the two statements of `insert_thread`, which the thread that handles
the events may come between, a call of `exit_thread`, a system call that reaches
a probe, an entry the kernel evicts, or an event that `ring_buffer__poll` hands
to `handle_event`. -/
inductive PosixStep where
  | insertThread (thread : Thread)
  | resetLastFd (thread : Thread)
  | exitThread (thread : Thread)
  | probe (call : BpfCall) (probe : PosixProbe)
  | evictPid (pid : UInt32)
  | evictOpen (pid : UInt32)
  | poll
  deriving DecidableEq, Repr

namespace PosixPipeline

variable {ρ η : Type}

/-- Before any thread is known. -/
def init (ioHandles : ρ) : PosixPipeline ρ η := ⟨.load, .init ioHandles⟩

def step (trace : PosixTrace ρ η) (s : PosixPipeline ρ η) :
    PosixStep → Except Failure (PosixPipeline ρ η)
  | .insertThread thread => .ok { s with bpf := s.bpf.insertThread thread }
  | .resetLastFd thread =>
      .ok { s with monitor := s.monitor.insertThread thread }
  | .exitThread thread => .ok { s with bpf := s.bpf.exitThread thread }
  | .probe call probe => .ok { s with bpf := s.bpf.handle call probe }
  | .evictPid pid =>
      .ok { s with bpf := { s.bpf with pids := s.bpf.pids.erase pid } }
  | .evictOpen pid =>
      .ok { s with bpf := { s.bpf with openCache := s.bpf.openCache.erase pid } }
  | .poll =>
      match s.bpf.rb with
      | [] => .ok s
      | event :: rb => do
          let monitor ← s.monitor.handleEvent trace event
          return ⟨{ s.bpf with rb := rb }, monitor⟩

end PosixPipeline

end Lo2s
