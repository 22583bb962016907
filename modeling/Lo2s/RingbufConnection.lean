import Lo2s.Foundation.FiniteMap
import Lo2s.PollMonitor
import Lo2s.RingbufFifo

/-!
# How injected libraries get their ring buffers

A library that lo2s injects into a program connects to the socket of
`SocketMonitor`, which answers with the file of a new ring buffer and waits
until the library has written its process and the type of its measurement into
the header.  Then it makes a monitor for the buffer and takes the next
connection.  The monitors wait for nothing but the signal to stop, so they read
when the measurement ends, one after the other.

What a party cannot do now changes nothing.
-/

namespace Lo2s

open Foundation

/-- `RingbufMeasurementType`. -/
inductive RingbufMeasurementType where
  | unset
  | gpu
  | openmp
  deriving DecidableEq, Repr

/-- The underlying integer of the enumeration. -/
def RingbufMeasurementType.toUInt64 : RingbufMeasurementType → UInt64
  | .unset => 0
  | .gpu => 1
  | .openmp => 2

/-- `RINGBUF_VERSION`. -/
def ringbufVersion : UInt64 := 2

/-- The memory of a ring buffer: the fields of the header that the two sides
agree with on, and the buffer in use. -/
structure SharedRing where
  version : UInt64
  pid : Int64
  type : UInt64
  session : RingbufSession

/-- The constructor of `RingbufReader`: a header of zeros, in which the version
and the size are set. -/
def SharedRing.create (size : BufferSize) : SharedRing :=
  ⟨ringbufVersion, 0, 0, .start size fun _ => 0⟩

/-- How far the constructor of `RingbufWriter` is: `connect`, the message with
the file, the mapping, the process, and the type. -/
inductive WriterStage where
  | connecting
  | served
  | mapped
  | named
  | connected
  deriving DecidableEq, Repr

/-- A process with a `RingbufWriter`.  `version` is what the injected library
was built with, `ring` the file it was sent, and `sent` what it committed. -/
structure RingbufClient where
  process : Process
  type : RingbufMeasurementType
  version : UInt64
  stage : WriterStage
  ring : Option Nat
  alive : Bool
  sent : List (List UInt8)

/-- A `GPUMonitor` or an `OpenMPMonitor` with its `RingbufReader`, and the
events it took. -/
structure RingbufMonitor where
  ring : Nat
  process : Process
  received : List (List UInt8)

/-- The loop of such a monitor, which adds no descriptor to the one of its
stop. -/
def RingbufMonitor.loop (stopFd : Int32) (monitor : RingbufMonitor) :
    PollMonitor RingbufMonitor :=
  .start stopFd [] monitor

theorem RingbufMonitor.stopped_of_monitored {stopFd : Int32}
    {monitor : RingbufMonitor}
    {handle : Int32 → RingbufMonitor → Except Failure RingbufMonitor}
    {results : List PollResult} {wakeups : List Wakeup} {outcome : PollOutcome}
    (ran : PollMonitor.run handle results (monitor.loop stopFd) =
      (wakeups, outcome)) {earlier later : List Wakeup} {wakeup : Wakeup}
    (split : wakeups = earlier ++ wakeup :: later)
    (monitored : wakeup.monitored ≠ []) :
    wakeup.signalledFds = [stopFd] ∧ later = [] ∧ outcome ≠ .polling :=
  (PollMonitor.run_alone rfl ran earlier wakeup later split monitored).2

/-- What the thread of `SocketMonitor` does: wait in `poll`, wait for the type
in the header of a new ring buffer, stop the monitors of some descriptors, or
nothing any more. -/
inductive SocketPhase where
  | polling
  | waiting (fd : Int) (ring : Nat)
  | stopping (fd : Int) (rest : List Int)
  | finished
  deriving DecidableEq, Repr

/-- `SocketMonitor` and everyone that connects to it.  `backlog` holds the
connections not yet accepted. -/
structure SocketMonitor where
  size : BufferSize
  clients : FiniteMap Nat RingbufClient
  nextClient : Nat
  backlog : List Nat
  rings : FiniteMap Nat SharedRing
  nextRing : Nat
  phase : SocketPhase
  gpuMonitors : FiniteMap Int RingbufMonitor
  openmpMonitors : FiniteMap Int RingbufMonitor

/-- What can happen next.  `fd` is the descriptor the operating system finds
for a new file. -/
inductive SocketStep where
  | connect (process : Process) (type : RingbufMeasurementType)
      (version : UInt64)
  | accept (fd : Int)
  | receive (client : Nat)
  | storePid (client : Nat)
  | storeType (client : Nat)
  | dispatch
  | write (client : Nat) (op : RingbufStep)
  | exit (client : Nat)
  | stop
  | read (op : RingbufStep)
  | join

/-- The operations of the writer, and those of the reader. -/
def RingbufStep.isWriters : RingbufStep → Bool
  | .reserve _ | .fill _ _ | .commit => true
  | .empty | .get | .pop => false

namespace SocketMonitor

def start (size : BufferSize) : SocketMonitor :=
  ⟨size, ∅, 0, [], ∅, 0, .polling, ∅, ∅⟩

/-- The map of the monitors for a type. -/
def monitors (s : SocketMonitor) :
    RingbufMeasurementType → FiniteMap Int RingbufMonitor
  | .unset => ∅
  | .gpu => s.gpuMonitors
  | .openmp => s.openmpMonitors

/-- `socket` and `connect`. -/
def connect (process : Process) (type : RingbufMeasurementType)
    (version : UInt64) (s : SocketMonitor) : SocketMonitor :=
  { s with
    clients := s.clients.insert s.nextClient
      ⟨process, type, version, .connecting, none, true, []⟩
    nextClient := s.nextClient + 1
    backlog := s.backlog ++ [s.nextClient] }

/-- The living client at a stage, with its ring buffer. -/
def clientAt (stage : WriterStage) (c : Nat) (s : SocketMonitor) :
    Option (RingbufClient × Nat × SharedRing) := do
  let client ← s.clients.lookup c
  let r ← client.ring
  let ring ← s.rings.lookup r
  if client.alive ∧ client.stage = stage then some (client, r, ring) else none

/-- `recvmsg`, and the constructor of `ShmRingbuf`, which throws where the
versions differ. -/
def receive (c : Nat) (s : SocketMonitor) : SocketMonitor :=
  match s.clientAt .served c with
  | none => s
  | some (client, _, ring) =>
      let client := if ring.version ≠ client.version then
          { client with alive := false }
        else { client with stage := .mapped }
      { s with clients := s.clients.insert c client }

/-- `rb_->header()->pid = process.as_int()`. -/
def storePid (c : Nat) (s : SocketMonitor) : SocketMonitor :=
  match s.clientAt .mapped c with
  | none => s
  | some (client, r, ring) =>
      { s with
        clients := s.clients.insert c { client with stage := .named }
        rings := s.rings.insert r { ring with pid := client.process.pid } }

/-- `rb_->header()->type = (uint64_t)type`, the end of the constructor. -/
def storeType (c : Nat) (s : SocketMonitor) : SocketMonitor :=
  match s.clientAt .named c with
  | none => s
  | some (client, r, ring) =>
      { s with
        clients := s.clients.insert c { client with stage := .connected }
        rings := s.rings.insert r { ring with type := client.type.toUInt64 } }

/-- An operation of the `RingbufWriter`. -/
def write (c : Nat) (op : RingbufStep) (s : SocketMonitor) :
    Except Failure SocketMonitor :=
  match s.clientAt .connected c with
  | none => .ok s
  | some (client, r, ring) =>
      if op.isWriters ∧ ring.session.Allowed op then
        match ring.session.step op with
        | .error failure => .error failure
        | .ok session =>
            let sent := client.sent ++
              session.committed.drop ring.session.committed.length
            .ok
              { s with
                clients := s.clients.insert c { client with sent := sent }
                rings := s.rings.insert r { ring with session := session } }
      else .ok s

/-- The process ends, or the constructor throws. -/
def exit (c : Nat) (s : SocketMonitor) : SocketMonitor :=
  match s.clients.lookup c with
  | none => s
  | some client =>
      { s with clients := s.clients.insert c { client with alive := false } }

/-- `monitor` up to `sendmsg`, which fails where nobody is left to receive. -/
def accept (fd : Int) (s : SocketMonitor) : Except Failure SocketMonitor :=
  match s.phase, s.backlog with
  | .polling, c :: backlog =>
      if fd ∈ s.gpuMonitors ∨ fd ∈ s.openmpMonitors then .ok s
      else
        match s.clients.lookup c with
        | none => .ok s
        | some client =>
            if client.alive then .ok
              { s with
                clients := s.clients.insert c
                  { client with stage := .served, ring := some s.nextRing }
                backlog := backlog
                rings := s.rings.insert s.nextRing (.create s.size)
                nextRing := s.nextRing + 1
                phase := .waiting fd s.nextRing }
            else .error (.runtimeError "sendmsg")
  | _, _ => .ok s

/-- `emplace` and `start`, whose assertion fails for a monitor that runs
already. -/
def emplaceMonitor (fd : Int) (monitor : RingbufMonitor)
    (monitors : FiniteMap Int RingbufMonitor) :
    Except Failure (FiniteMap Int RingbufMonitor) :=
  if fd ∈ monitors then .error (.assertion "!thread_.joinable()")
  else .ok (monitors.insert fd monitor)

/-- `monitor` from the loop that waits for the type. -/
def dispatch (s : SocketMonitor) : Except Failure SocketMonitor :=
  match s.phase with
  | .waiting fd r =>
      match s.rings.lookup r with
      | none => .ok s
      | some ring =>
          let monitor : RingbufMonitor := ⟨r, ⟨ring.pid⟩, []⟩
          if ring.type = 0 then .ok s
          else if ring.type = RingbufMeasurementType.gpu.toUInt64 then
            match emplaceMonitor fd monitor s.gpuMonitors with
            | .error failure => .error failure
            | .ok monitors =>
                .ok { s with phase := .polling, gpuMonitors := monitors }
          else if ring.type = RingbufMeasurementType.openmp.toUInt64 then
            match emplaceMonitor fd monitor s.openmpMonitors with
            | .error failure => .error failure
            | .ok monitors =>
                .ok { s with phase := .polling, openmpMonitors := monitors }
          else .error (.runtimeError
            s!"Invalid ring buffer measurement type: {ring.type}")
  | _ => .ok s

/-- The loops of `finalize_thread` go on with the next monitor. -/
def stopNext (s : SocketMonitor) : List Int → SocketMonitor
  | [] => { s with phase := .finished }
  | fd :: rest => { s with phase := .stopping fd rest }

/-- The signal to stop, after which `finalize_thread` stops the monitors in the
order of the two maps. -/
def stop (s : SocketMonitor) : SocketMonitor :=
  match s.phase with
  | .polling => s.stopNext ((s.gpuMonitors.ascending (· ≤ ·)).map Prod.fst ++
      (s.openmpMonitors.ascending (· ≤ ·)).map Prod.fst)
  | _ => s

/-- The monitor of a descriptor, with its type. -/
def monitorOf (fd : Int) (s : SocketMonitor) :
    Option (RingbufMeasurementType × RingbufMonitor) :=
  match s.gpuMonitors.lookup fd with
  | some monitor => some (.gpu, monitor)
  | none => (s.openmpMonitors.lookup fd).map fun monitor => (.openmp, monitor)

/-- Replacing the monitor of a descriptor. -/
def setMonitor (type : RingbufMeasurementType) (fd : Int)
    (monitor : RingbufMonitor) (s : SocketMonitor) : SocketMonitor :=
  match type with
  | .unset => s
  | .gpu => { s with gpuMonitors := s.gpuMonitors.insert fd monitor }
  | .openmp => { s with openmpMonitors := s.openmpMonitors.insert fd monitor }

/-- An operation of the `RingbufReader` of the monitor that is being stopped,
which is when its loop calls `monitor(fd)`. -/
def read (op : RingbufStep) (s : SocketMonitor) : Except Failure SocketMonitor :=
  match s.phase with
  | .stopping fd _ =>
      match s.monitorOf fd with
      | none => .ok s
      | some (type, monitor) =>
          match s.rings.lookup monitor.ring with
          | none => .ok s
          | some ring =>
              if op.isWriters then .ok s
              else
                match ring.session.step op with
                | .error failure => .error failure
                | .ok session =>
                    let received := monitor.received ++
                      session.popped.drop ring.session.popped.length
                    let rings := s.rings.insert monitor.ring
                      { ring with session := session }
                    .ok ({ s with rings := rings }.setMonitor type fd
                      { monitor with received := received })
  | _ => .ok s

/-- The monitor that is being stopped has found its ring buffer empty. -/
def join (s : SocketMonitor) : Except Failure SocketMonitor :=
  match s.phase with
  | .stopping fd rest =>
      match s.monitorOf fd with
      | none => .ok (s.stopNext rest)
      | some (_, monitor) =>
          match s.rings.lookup monitor.ring with
          | none => .ok (s.stopNext rest)
          | some ring =>
              match RingbufReader.empty ring.session.rb with
              | .error failure => .error failure
              | .ok false => .ok s
              | .ok true => .ok (s.stopNext rest)
  | _ => .ok s

/-- One step of one party. -/
def step (s : SocketMonitor) : SocketStep → Except Failure SocketMonitor
  | .connect process type version => .ok (s.connect process type version)
  | .accept fd => s.accept fd
  | .receive client => .ok (s.receive client)
  | .storePid client => .ok (s.storePid client)
  | .storeType client => .ok (s.storeType client)
  | .dispatch => s.dispatch
  | .write client op => s.write client op
  | .exit client => .ok (s.exit client)
  | .stop => .ok s.stop
  | .read op => s.read op
  | .join => s.join

end SocketMonitor

end Lo2s
