import Lo2s.ThreadIo

/-!
# The BPF program and the monitor together

The BPF program writes events as the threads run, and the monitor handles them
some time later.  For each thread this is as if there was no ring buffer in
between.
-/

namespace Lo2s

open Foundation

namespace PosixIoBpf

variable {b : PosixIoBpf} {call : BpfCall} {probe : PosixProbe} {pid : UInt32}
  {t : ThreadIo}

/-- The event that a probe of a thread in `pids` is about. -/
def eventAt (call : BpfCall) (b : PosixIoBpf) : PosixProbe → Option PosixEvent
  | .doFilpOpen _ => none
  | .sysExitOpenat ret =>
      if ret < 0 then none
      else (b.openCache.lookup call.pid).map
        (.openFile (header call ret.toInt32))
  | .sysEnterClose fd => some (.closeFile (header call fd.toUInt32.toInt32))
  | .sysEnterRw mode fd buf count =>
      some (.enter mode
        ⟨header call fd.toUInt32.toInt32, buf.toInt64, count.toInt64⟩)
  | .sysExitRw mode => some (.exit mode (header call call.stale))

/-- The events a call of the BPF program adds to the ring buffer. -/
def added (call : BpfCall) (probe : PosixProbe) (b : PosixIoBpf) :
    List PosixEvent :=
  if call.pid ∈ b.pids ∧ call.room then (b.eventAt call probe).toList else []

/-- The names after a call of the BPF program. -/
def named (call : BpfCall) (b : PosixIoBpf) :
    PosixProbe → FiniteMap UInt32 String
  | .doFilpOpen name =>
      if call.pid ∈ b.pids then
        b.openCache.insert call.pid (readKernelStr name)
      else b.openCache
  | _ => b.openCache

/-- A call adds the event of its probe and changes the names, and that is all. -/
theorem handle_eq (call : BpfCall) (probe : PosixProbe) (b : PosixIoBpf) :
    b.handle call probe =
      ⟨b.pids, b.named call probe, b.rb ++ b.added call probe⟩ := by
  have submitted : ∀ event, (if call.pid ∈ b.pids then b.submit call event
      else b) = ⟨b.pids, b.openCache, b.rb ++
        if call.pid ∈ b.pids ∧ call.room then [event] else []⟩ := by
    intro event
    by_cases known : call.pid ∈ b.pids
    · cases room : call.room <;> simp [submit, known, room]
    · simp [known]
  cases probe with
  | doFilpOpen name =>
      by_cases known : call.pid ∈ b.pids
      · simp [handle, doFilpOpen, named, added, eventAt, known]
      · simp [handle, doFilpOpen, named, added, known]
  | sysExitOpenat ret =>
      simp only [handle, handleOpenatRet, named, added, eventAt]
      by_cases failed : ret < 0
      · simp [failed]
      · rw [if_neg failed, if_neg failed]
        cases cached : b.openCache.lookup call.pid with
        | none => simp
        | some filename => exact submitted _
  | sysEnterClose fd => exact submitted _
  | sysEnterRw mode fd buf count => cases mode <;> exact submitted _
  | sysExitRw mode => cases mode <;> exact submitted _

/-- The thread is recorded, and the file it opens is named, as in the maps. -/
structure Watches (b : PosixIoBpf) (pid : UInt32) (t : ThreadIo) : Prop where
  recorded : t.recorded = true ↔ pid ∈ b.pids
  name : t.name = b.openCache.lookup pid

theorem thread_eventAt {event : PosixEvent}
    (about : b.eventAt call probe = some event) :
    event.thread = threadOf call.pid := by
  cases probe with
  | doFilpOpen name => cases about
  | sysExitOpenat ret =>
      simp only [eventAt] at about
      split_ifs at about
      obtain ⟨filename, _, rfl⟩ := Option.map_eq_some_iff.mp about
      rfl
  | sysEnterClose fd => cases about; rfl
  | sysEnterRw mode fd buf count => cases about; rfl
  | sysExitRw mode => cases about; rfl

theorem mem_added {event : PosixEvent} (inside : event ∈ b.added call probe) :
    call.pid ∈ b.pids ∧ b.eventAt call probe = some event := by
  rw [added] at inside
  split_ifs at inside with submitted
  · exact ⟨submitted.1, Option.mem_toList.mp inside⟩
  · cases inside

theorem Watches.own (watches : b.Watches call.pid t)
    (recorded : t.recorded = true) (probe : PosixProbe) :
    (b.handle call probe).Watches call.pid (t.probe call probe) ∧
      (t.probe call probe).log = (b.added call probe).foldl IoLog.note t.log := by
  have known := watches.recorded.mp recorded
  have added_eq : b.added call probe =
      if call.room then (b.eventAt call probe).toList else [] := by
    simp [added, known]
  have noted : ∀ event rb,
      Watches ⟨b.pids, b.openCache, rb⟩ call.pid (t.note call (·.note event)) ∧
        (t.note call (·.note event)).log =
          (if call.room then [event] else []).foldl IoLog.note t.log := by
    intro event rb
    rw [ThreadIo.note]
    split_ifs <;> exact ⟨⟨watches.recorded, watches.name⟩, rfl⟩
  rw [handle_eq, added_eq]
  cases probe with
  | doFilpOpen name =>
      refine ⟨⟨watches.recorded, ?_⟩, by simp [eventAt, ThreadIo.probe]⟩
      simp [named, known, ThreadIo.probe]
  | sysExitOpenat ret =>
      have kept : ∀ rb, Watches ⟨b.pids, b.openCache, rb⟩ call.pid t :=
        fun _ => ⟨watches.recorded, watches.name⟩
      have name := watches.name
      simp only [ThreadIo.probe, eventAt]
      cases cached : b.openCache.lookup call.pid with
      | none =>
          rw [cached] at name
          simp [name, kept, named]
      | some filename =>
          rw [cached] at name
          by_cases failed : ret < 0
          · simp [name, failed, kept, named]
          · simp only [name, if_neg failed]
            exact noted (.openFile (header call ret.toInt32) filename) _
  | sysEnterClose fd =>
      exact noted (.closeFile (header call fd.toUInt32.toInt32)) _
  | sysEnterRw mode fd buf count =>
      have same := noted (.enter mode ⟨header call fd.toUInt32.toInt32,
        buf.toInt64, count.toInt64⟩) (b.rb ++ if call.room then
          (b.eventAt call (.sysEnterRw mode fd buf count)).toList else [])
      simp only [IoLog.note, UInt64.toUInt64_toInt64] at same
      exact same
  | sysExitRw mode => exact noted (.exit mode (header call call.stale)) _

/-- The machine that watches one thread does what the program does. -/
theorem Watches.handle (watches : b.Watches pid t) :
    (b.handle call probe).Watches pid (t.step pid (.probe call probe)) ∧
      (t.step pid (.probe call probe)).log =
        (b.added call probe).foldl (fun log event =>
          log.input (threadOf pid) (.event event)) t.log := by
  rw [ThreadIo.step]
  split_ifs with own
  · obtain ⟨rfl, recorded⟩ := own
    obtain ⟨kept, log⟩ := watches.own recorded probe
    refine ⟨kept, log.trans (List.foldl_ext _ _ _ ?_)⟩
    intro log event inside
    exact (if_pos (thread_eventAt (mem_added inside).2)).symm
  · -- Either the call is another thread's, or the program returns at once.
    have apart : call.pid ∈ b.pids → call.pid ≠ pid := by
      rintro known rfl
      exact own ⟨rfl, watches.recorded.mpr known⟩
    constructor
    · rw [handle_eq]
      refine ⟨watches.recorded, watches.name.trans ?_⟩
      cases probe with
      | doFilpOpen name =>
          simp only [named]
          split_ifs with known
          · exact (AList.lookup_insert_ne (apart known).symm).symm
          · rfl
      | sysExitOpenat ret => rfl
      | sysEnterClose fd => rfl
      | sysEnterRw mode fd buf count => rfl
      | sysExitRw mode => rfl
    · apply (IoLog.foldl_input_of_ne ?_ t.log).symm
      intro event inside
      obtain ⟨known, about⟩ := mem_added inside
      rw [thread_eventAt about, Ne, threadOf_inj]
      exact apart known

end PosixIoBpf

/-- The file a step of the kernel opens. -/
def PosixStep.opens? : PosixStep → Option ThreadFd
  | .probe call (.sysExitOpenat ret) =>
      some (.ofPid ret.toInt32 call.pid.toInt32)
  | _ => none

/-- How often a file is opened. -/
def PosixStep.openCount (file : ThreadFd) (steps : List PosixStep) : Nat :=
  steps.countP fun input => input.opens? = some file

namespace PosixPipeline

variable {ρ η : Type} {trace : PosixTrace ρ η} {ioHandles : ρ}
  {s : PosixPipeline ρ η} {steps : List PosixStep}
  {performed : List PosixInput}

/-- Which steps are taken.  Where the second statement of `insert_thread` sets
`last_fd_`, the trace knows the thread, and no event of it is left in the ring
buffer; and a thread in `pids` makes no system call before it is in `last_fd_`. -/
def Allowed (trace : PosixTrace ρ η) (s : PosixPipeline ρ η) :
    PosixStep → Prop
  | .resetLastFd thread => thread = threadOf thread.pid ∧
      trace.Emplaced thread ∧ ∀ event ∈ s.bpf.rb, event.thread ≠ thread
  | .probe call _ =>
      call.pid ∈ s.bpf.pids → threadOf call.pid ∈ s.monitor.lastFd
  | _ => True

/-- The inputs of the monitor, with those it has yet to handle. -/
def inputs (performed : List PosixInput) (s : PosixPipeline ρ η) :
    List PosixInput :=
  performed ++ s.bpf.rb.map .event

/-- The monitor has performed the inputs, and the events that are left in the
ring buffer complete what the threads have done. -/
structure Delivers (trace : PosixTrace ρ η) (ioHandles : ρ)
    (steps : List PosixStep) (s : PosixPipeline ρ η)
    (performed : List PosixInput) : Prop where
  reached : run (PosixMonitor.step trace) (.init ioHandles) performed =
    .ok s.monitor
  inserted : Throughout (fun earlier input => ∀ event,
    input = .event event → .insertThread event.thread ∈ earlier) performed
  queued : ∀ event ∈ s.bpf.rb, .insertThread event.thread ∈ performed
  known : ∀ thread ∈ s.monitor.lastFd, .insertThread thread ∈ performed
  emplaced : ∀ thread, .insertThread thread ∈ performed →
    trace.Emplaced thread
  watches : ∀ pid, s.bpf.Watches pid (ThreadIo.after pid steps)
  logs : ∀ pid, (ThreadIo.after pid steps).log =
    PosixInput.log (threadOf pid) (s.inputs performed)
  opens : ∀ file, PosixInput.openCount file (s.inputs performed) ≤
    PosixStep.openCount file steps

theorem watches_step {next : PosixPipeline ρ η} {input : PosixStep}
    (stepped : s.step trace input = .ok next) {pid : UInt32} {t : ThreadIo}
    (watches : s.bpf.Watches pid t) : next.bpf.Watches pid (t.step pid input) := by
  obtain ⟨recorded, name⟩ := watches
  -- A number that is taken out of `pids`.
  have forgotten : ∀ gone, PosixIoBpf.Watches
      { s.bpf with pids := s.bpf.pids.erase gone } pid
      (if gone = pid then { t with recorded := false } else t) := by
    intro gone
    split_ifs with own
    · refine ⟨iff_of_false (by simp) ?_, name⟩
      exact fun known => (AList.mem_erase.mp known).1 own.symm
    · refine ⟨recorded.trans ?_, name⟩
      exact (AList.mem_erase.trans (and_iff_right (Ne.symm own))).symm
  cases input with
  | insertThread thread =>
      rw [← Except.ok.inj stepped, ThreadIo.step]
      split_ifs with own
      · exact ⟨iff_of_true rfl ((AList.mem_insert _).mpr (.inl own.symm)), name⟩
      · refine ⟨recorded.trans ?_, name⟩
        exact ((AList.mem_insert _).trans (or_iff_right (Ne.symm own))).symm
  | resetLastFd thread =>
      rw [← Except.ok.inj stepped, ThreadIo.step]
      split_ifs <;> exact ⟨recorded, name⟩
  | exitThread thread =>
      rw [← Except.ok.inj stepped]
      exact forgotten thread.pid
  | probe call probe =>
      rw [← Except.ok.inj stepped]
      exact (PosixIoBpf.Watches.handle ⟨recorded, name⟩).1
  | evictPid gone =>
      rw [← Except.ok.inj stepped]
      exact forgotten gone
  | evictOpen gone =>
      rw [← Except.ok.inj stepped, ThreadIo.step]
      split_ifs with own
      · have evicted : (s.bpf.openCache.erase gone).lookup pid = none := by
          rw [own, AList.lookup_erase]
        exact ⟨recorded, evicted.symm⟩
      · refine ⟨recorded, name.trans ?_⟩
        exact (AList.lookup_erase_ne (Ne.symm own)).symm
  | poll =>
      simp only [PosixPipeline.step] at stepped
      split at stepped
      · rw [← Except.ok.inj stepped]
        exact ⟨recorded, name⟩
      · obtain ⟨monitor, _, stepped⟩ := bind_eq_ok_iff.mp stepped
        rw [← Except.ok.inj stepped]
        exact ⟨recorded, name⟩

/-- The maps of the program are as the machines of the threads have them. -/
theorem watches_of_run
    (reached : run (step trace) (init ioHandles) steps = .ok s) (pid : UInt32) :
    s.bpf.Watches pid (ThreadIo.after pid steps) := by
  apply invariant_of_run
    (fun earlier s => s.bpf.Watches pid (ThreadIo.after pid earlier)) ?_ ?_
    reached
  · refine ⟨iff_of_false ?_ ?_, rfl⟩
    · intro never
      cases never
    · intro never
      cases never
  · intro earlier s input next watches stepped
    rw [ThreadIo.after_concat]
    exact watches_step stepped watches

theorem Delivers.init : Delivers trace ioHandles [] (.init ioHandles) [] where
  reached := rfl
  inserted := .nil
  queued := by simp [PosixPipeline.init, PosixIoBpf.load]
  known := by
    intro thread known
    cases known
  emplaced := by simp
  watches := watches_of_run
    (show run (PosixPipeline.step trace) (.init ioHandles) [] = .ok _ from rfl)
  logs := fun _ => rfl
  opens := fun _ => le_rfl

/-- What the inputs of the monitor tell, from what it has performed. -/
theorem log_inputs (thread : Thread) (performed : List PosixInput)
    (s : PosixPipeline ρ η) :
    PosixInput.log thread (s.inputs performed) =
      s.bpf.rb.foldl (fun log event => log.input thread (.event event))
        (PosixInput.log thread performed) :=
  PosixInput.log_append_events thread performed s.bpf.rb

theorem openCount_inputs (file : ThreadFd) (performed : List PosixInput)
    (s : PosixPipeline ρ η) :
    PosixInput.openCount file (s.inputs performed) =
      PosixInput.openCount file performed +
        PosixInput.openCount file (s.bpf.rb.map .event) := by
  rw [PosixInput.openCount, inputs, List.countP_append,
    PosixInput.openCount, PosixInput.openCount]

theorem stepOpenCount_concat (file : ThreadFd) (steps : List PosixStep)
    (input : PosixStep) :
    PosixStep.openCount file (steps ++ [input]) =
      PosixStep.openCount file steps +
        if input.opens? = some file then 1 else 0 := by
  simp [PosixStep.openCount, List.countP_append, List.countP_singleton]

theorem Delivers.resetLastFd
    (delivers : Delivers trace ioHandles steps s performed)
    {thread : Thread} (allowed : s.Allowed trace (.resetLastFd thread)) :
    Delivers trace ioHandles (steps ++ [.resetLastFd thread])
      { s with monitor := s.monitor.insertThread thread }
      (performed ++ [.insertThread thread]) := by
  obtain ⟨numbered, emplaced, handled⟩ := allowed
  constructor
  case reached => exact run_concat_eq_ok_iff.mpr ⟨_, delivers.reached, rfl⟩
  case inserted =>
      exact Throughout.concat_iff.mpr ⟨delivers.inserted, by simp⟩
  case queued =>
      intro event inside
      exact List.mem_append_left _ (delivers.queued event inside)
  case known =>
      intro other known
      rcases (AList.mem_insert _).mp known with rfl | before
      · exact List.mem_append_right _ (List.mem_singleton_self _)
      · exact List.mem_append_left _ (delivers.known other before)
  case emplaced =>
      intro other inside
      rcases List.mem_append.mp inside with before | here
      · exact delivers.emplaced other before
      · cases List.mem_singleton.mp here
        exact emplaced
  case watches =>
      intro pid
      rw [ThreadIo.after_concat]
      exact watches_step (show s.step trace (.resetLastFd thread) = .ok _ from
        rfl) (delivers.watches pid)
  case logs =>
      intro pid
      have before := delivers.logs pid
      rw [log_inputs] at before
      rw [ThreadIo.after_concat, ThreadIo.step, log_inputs,
        PosixInput.log_concat]
      split_ifs with own
      · have same : threadOf pid = thread := by rw [← own, ← numbered]
        rw [IoLog.foldl_input_of_ne (by rw [same]; exact handled)] at before ⊢
        rw [before, IoLog.input, if_pos same.symm]
      · have other : (PosixInput.insertThread thread).thread ≠ threadOf pid := by
          intro same
          apply own
          rw [show thread = threadOf pid from same, pid_threadOf]
        rw [IoLog.input_of_ne other]
        exact before
  case opens =>
      intro file
      have before := delivers.opens file
      rw [openCount_inputs] at before ⊢
      rw [PosixInput.openCount_concat, stepOpenCount_concat]
      exact before

theorem Delivers.idle (delivers : Delivers trace ioHandles steps s performed)
    {input : PosixStep} {b : PosixIoBpf} (sameRb : b.rb = s.bpf.rb)
    (stepped : s.step trace input = .ok { s with bpf := b })
    (silent : ∀ pid (t : ThreadIo), (t.step pid input).log = t.log) :
    Delivers trace ioHandles (steps ++ [input]) { s with bpf := b }
      performed := by
  have sameInputs : ({ s with bpf := b } : PosixPipeline ρ η).inputs performed =
      s.inputs performed := by
    rw [inputs, sameRb, inputs]
  constructor
  case reached => exact delivers.reached
  case inserted => exact delivers.inserted
  case queued =>
      intro event inside
      exact delivers.queued event (sameRb ▸ inside)
  case known => exact delivers.known
  case emplaced => exact delivers.emplaced
  case watches =>
      intro pid
      rw [ThreadIo.after_concat]
      exact watches_step stepped (delivers.watches pid)
  case logs =>
      intro pid
      rw [ThreadIo.after_concat, silent, sameInputs]
      exact delivers.logs pid
  case opens =>
      intro file
      rw [sameInputs, stepOpenCount_concat]
      exact (delivers.opens file).trans (Nat.le_add_right _ _)

theorem openCount_added (file : ThreadFd) (call : BpfCall) (probe : PosixProbe)
    (b : PosixIoBpf) :
    PosixInput.openCount file ((b.added call probe).map .event) ≤
      if (PosixStep.probe call probe).opens? = some file then 1 else 0 := by
  rw [PosixIoBpf.added]
  split_ifs with submitted opens
  · cases about : b.eventAt call probe with
    | none => exact Nat.zero_le _
    | some event => exact List.countP_le_length
  · cases probe with
    | sysExitOpenat ret =>
        simp only [PosixIoBpf.eventAt]
        split_ifs
        · exact le_rfl
        · cases cached : b.openCache.lookup call.pid with
          | none => exact le_rfl
          | some filename =>
              refine (List.countP_eq_zero.mpr ?_).le
              intro input inside same
              cases List.mem_singleton.mp inside
              exact opens (of_decide_eq_true same)
    | doFilpOpen name => exact le_rfl
    | sysEnterClose fd => exact le_rfl
    | sysEnterRw mode fd buf count => exact le_rfl
    | sysExitRw mode => exact le_rfl
  · exact Nat.zero_le _
  · exact le_rfl

theorem Delivers.probe (delivers : Delivers trace ioHandles steps s performed)
    {call : BpfCall} {probe : PosixProbe}
    (allowed : s.Allowed trace (.probe call probe)) :
    Delivers trace ioHandles (steps ++ [.probe call probe])
      { s with bpf := s.bpf.handle call probe } performed := by
  have longer : ({ s with bpf := s.bpf.handle call probe } :
      PosixPipeline ρ η).inputs performed =
        s.inputs performed ++ (s.bpf.added call probe).map .event := by
    rw [inputs, PosixIoBpf.handle_eq, List.map_append, ← List.append_assoc,
      inputs]
  constructor
  case reached => exact delivers.reached
  case inserted => exact delivers.inserted
  case queued =>
      intro event inside
      rw [PosixIoBpf.handle_eq] at inside
      rcases List.mem_append.mp inside with before | new
      · exact delivers.queued event before
      · obtain ⟨known, about⟩ := PosixIoBpf.mem_added new
        rw [PosixIoBpf.thread_eventAt about]
        exact delivers.known _ (allowed known)
  case known => exact delivers.known
  case emplaced => exact delivers.emplaced
  case watches =>
      intro pid
      rw [ThreadIo.after_concat]
      exact (delivers.watches pid).handle.1
  case logs =>
      intro pid
      rw [ThreadIo.after_concat, (delivers.watches pid).handle.2, longer,
        PosixInput.log_append_events, delivers.logs pid]
  case opens =>
      intro file
      have before := delivers.opens file
      rw [longer, stepOpenCount_concat, PosixInput.openCount,
        List.countP_append, ← PosixInput.openCount, ← PosixInput.openCount]
      exact Nat.add_le_add before (openCount_added file call probe s.bpf)

theorem Delivers.poll (lawful : trace.registry.Lawful)
    (delivers : Delivers trace ioHandles steps s performed) :
    ∃ next later, s.step trace .poll = .ok next ∧
      Delivers trace ioHandles (steps ++ [.poll]) next later := by
  cases queue : s.bpf.rb with
  | nil =>
      refine ⟨s, performed, by simp only [PosixPipeline.step, queue], ?_⟩
      exact delivers.idle rfl (by simp only [PosixPipeline.step, queue])
        (fun _ _ => rfl)
  | cons event rb =>
      have known := delivers.queued event (by rw [queue]; exact List.mem_cons_self)
      obtain ⟨monitor, handled⟩ :
          ∃ final, s.monitor.step trace (.event event) = .ok final :=
        PosixMonitor.exists_step (delivers.emplaced event.thread known) s.monitor
      have sameInputs : (⟨{ s.bpf with rb := rb }, monitor⟩ :
          PosixPipeline ρ η).inputs (performed ++ [.event event]) =
            s.inputs performed := by
        rw [inputs, inputs, queue, List.map_cons, List.append_assoc]
        rfl
      refine ⟨⟨{ s.bpf with rb := rb }, monitor⟩, performed ++ [.event event],
        ?_, ?_⟩
      · simp only [PosixPipeline.step, queue]
        exact bind_eq_ok_iff.mpr ⟨monitor, handled, rfl⟩
      constructor
      case reached =>
          exact run_concat_eq_ok_iff.mpr ⟨_, delivers.reached, handled⟩
      case inserted =>
          refine Throughout.concat_iff.mpr ⟨delivers.inserted, ?_⟩
          rintro other same
          cases same
          exact known
      case queued =>
          intro other inside
          apply List.mem_append_left
          exact delivers.queued other
            (by rw [queue]; exact List.mem_cons_of_mem _ inside)
      case known =>
          intro thread there
          apply List.mem_append_left
          rw [(PosixMonitor.step_spec lawful handled).spec.1] at there
          rcases PosixMonitor.mem_lastFd_prepare there with rfl | before
          · exact known
          · exact delivers.known thread before
      case emplaced =>
          intro thread inside
          rcases List.mem_append.mp inside with before | here
          · exact delivers.emplaced thread before
          · cases List.mem_singleton.mp here
      case watches =>
          intro pid
          rw [ThreadIo.after_concat]
          exact ⟨(delivers.watches pid).recorded, (delivers.watches pid).name⟩
      case logs =>
          intro pid
          rw [ThreadIo.after_concat, sameInputs]
          exact delivers.logs pid
      case opens =>
          intro file
          rw [sameInputs, stepOpenCount_concat]
          exact (delivers.opens file).trans (Nat.le_add_right _ _)

theorem Delivers.step (lawful : trace.registry.Lawful)
    (delivers : Delivers trace ioHandles steps s performed)
    {input : PosixStep} (allowed : s.Allowed trace input) :
    ∃ next later, s.step trace input = .ok next ∧
      Delivers trace ioHandles (steps ++ [input]) next later := by
  cases input with
  | resetLastFd thread => exact ⟨_, _, rfl, delivers.resetLastFd allowed⟩
  | probe call probe => exact ⟨_, _, rfl, delivers.probe allowed⟩
  | poll => exact delivers.poll lawful
  | insertThread thread | exitThread thread | evictPid pid | evictOpen pid =>
      refine ⟨_, _, rfl, delivers.idle rfl rfl ?_⟩
      intro pid t
      rw [ThreadIo.step]
      split_ifs <;> rfl

end PosixPipeline

namespace IoLog

/-- The begin or the end of an operation. -/
def isOperation : IoRecord → Bool
  | .began _ _ _ _ _ | .ended _ _ _ _ => true
  | _ => false

/-- The last begin or end of an operation. -/
def lastOperation (records : List IoRecord) : Option IoRecord :=
  (records.filter isOperation).getLast?

@[simp] theorem lastOperation_concat (records : List IoRecord)
    (record : IoRecord) :
    lastOperation (records ++ [record]) =
      if isOperation record then some record else lastOperation records := by
  rw [lastOperation, List.filter_append, List.filter_singleton]
  split_ifs with operation
  · rw [operation, cond_true, List.getLast?_concat]
  · rw [Bool.eq_false_iff.mpr operation, cond_false, List.append_nil,
      lastOperation]

/-- An end has the file, the size and the buffer of the begin before it, and no
other begin or end is in between. -/
def EndsBegun (earlier : List IoRecord) : IoRecord → Prop
  | .ended _ fd bytes buffer => ∃ time mode,
      lastOperation earlier = some (.began time fd mode bytes buffer)
  | _ => True

/-- The operation that has not ended has begun, and every end has its begin. -/
structure Paired (log : IoLog) : Prop where
  begun : ∀ operation, log.operation = some operation → ∃ time mode,
    lastOperation log.records =
      some (.began time operation.fd mode operation.bytes operation.buffer)
  ended : Throughout EndsBegun log.records

theorem Paired.note {log : IoLog} (paired : log.Paired) (event : PosixEvent) :
    (log.note event).Paired := by
  cases event with
  | openFile header filename =>
      refine ⟨?_, Throughout.concat_iff.mpr ⟨paired.ended, trivial⟩⟩
      intro operation current
      rw [IoLog.note, opens, lastOperation_concat]
      exact paired.begun operation current
  | closeFile header =>
      refine ⟨?_, Throughout.concat_iff.mpr ⟨paired.ended, trivial⟩⟩
      intro operation current
      rw [IoLog.note, closes, lastOperation_concat]
      exact paired.begun operation current
  | enter mode event =>
      refine ⟨?_, Throughout.concat_iff.mpr ⟨paired.ended, trivial⟩⟩
      intro operation current
      simp only [IoLog.note, enters] at current
      split_ifs at current
      cases current
      refine ⟨event.header.time, mode, ?_⟩
      rw [IoLog.note, enters, lastOperation_concat]
      rfl
  | exit mode header =>
      simp only [IoLog.note, exits]
      cases current : log.operation with
      | none => exact paired
      | some operation =>
          refine ⟨by simp, Throughout.concat_iff.mpr ⟨paired.ended, ?_⟩⟩
          exact paired.begun operation current

theorem Paired.input {log : IoLog} (paired : log.Paired) (thread : Thread)
    (input : PosixInput) : (log.input thread input).Paired := by
  cases input with
  | insertThread inserted =>
      rw [IoLog.input]
      split_ifs
      · exact ⟨by simp, paired.ended⟩
      · exact paired
  | event event =>
      rw [IoLog.input]
      split_ifs
      · exact paired.note event
      · exact paired

theorem paired_log (thread : Thread) (inputs : List PosixInput) :
    (PosixInput.log thread inputs).Paired := by
  induction inputs using List.reverseRecOn with
  | nil => exact ⟨by simp [PosixInput.log], .nil⟩
  | append_singleton inputs input paired =>
      rw [PosixInput.log_concat]
      exact paired.input thread input

theorem records_prefix_input (thread : Thread) (log : IoLog)
    (input : PosixInput) :
    log.records <+: (log.input thread input).records := by
  cases input with
  | insertThread inserted =>
      rw [IoLog.input]
      split_ifs <;> exact List.prefix_rfl
  | event event =>
      rw [IoLog.input]
      split_ifs
      · cases event with
        | exit mode header =>
            simp only [note, exits]
            split
            · exact List.prefix_rfl
            · exact List.prefix_append _ _
        | openFile header filename => exact List.prefix_append _ _
        | closeFile header => exact List.prefix_append _ _
        | enter mode event => exact List.prefix_append _ _
      · exact List.prefix_rfl

theorem records_prefix_log (thread : Thread) (earlier later : List PosixInput) :
    (PosixInput.log thread earlier).records <+:
      (PosixInput.log thread (earlier ++ later)).records := by
  induction later using List.reverseRecOn with
  | nil => rw [List.append_nil]
  | append_singleton later input induction =>
      rw [← List.append_assoc, PosixInput.log_concat]
      exact induction.trans (records_prefix_input thread _ input)

end IoLog

namespace PosixPipeline

variable {ρ η : Type} {trace : PosixTrace ρ η} {ioHandles : ρ}

/-- What the trace tells about each thread is what the machine that watches the
thread alone has recorded, except for the last records, of events that are left
in the ring buffer; and there every end of an operation follows its begin.
This is so for any calls the threads make in any order, any events that are
lost for want of room, and any entries the kernel evicts. -/
theorem tells_records (lawful : trace.registry.Lawful)
    (empty : ∀ key, trace.registry.find ioHandles key = none)
    {steps : List PosixStep}
    (few : ∀ file, PosixStep.openCount file steps < 2 ^ 31)
    (allowed : AllowedRun (step trace) (Allowed trace) (init ioHandles) steps) :
    ∃ s, run (step trace) (init ioHandles) steps = .ok s ∧ ∀ pid,
      let records := (ThreadIo.after pid steps).log.records
      Throughout IoLog.EndsBegun records ∧
      ∃ told, told <+: records ∧ (s.bpf.rb = [] → told = records) ∧
        List.Forall₂ (trace.Tells s.monitor.ioHandles (threadOf pid))
          (s.monitor.eventsOf (threadOf pid)) told := by
  obtain ⟨s, reached, performed, delivers⟩ := keeps_along
    (fun earlier s => ∃ performed, Delivers trace ioHandles earlier s performed)
    ⟨[], .init⟩
    (by
      rintro earlier state input within here ⟨performed, delivers⟩
      obtain ⟨next, later, stepped, holds⟩ :=
        delivers.step lawful (allowed.at_step within here)
      exact ⟨next, stepped, later, holds⟩)
    steps List.prefix_rfl
  refine ⟨s, reached, fun pid => ?_⟩
  have logs := delivers.logs pid
  have fewPerformed : ∀ file, PosixInput.openCount file performed < 2 ^ 31 := by
    intro file
    have whole := delivers.opens file
    rw [openCount_inputs] at whole
    exact (Nat.le_of_add_right_le whole).trans_lt (few file)
  have shows := PosixMonitor.shows_of_run lawful empty delivers.inserted
    fewPerformed delivers.reached (threadOf pid)
  simp only
  rw [logs]
  refine ⟨(IoLog.paired_log _ _).ended, _, IoLog.records_prefix_log _ _ _, ?_,
    shows.told⟩
  intro drained
  rw [inputs, drained, List.map_nil, List.append_nil]

/-- Thread 10 opens a file and reads 64 bytes of it. -/
def oneRead : List PosixStep :=
  [.insertThread ⟨10⟩, .resetLastFd ⟨10⟩,
    .probe ⟨10, 1, true, 0⟩ (.doFilpOpen "data"),
    .probe ⟨10, 2, true, 0⟩ (.sysExitOpenat 3), .poll,
    .probe ⟨10, 3, true, 0⟩ (.sysEnterRw .read 3 4096 64),
    .probe ⟨10, 4, true, 7⟩ (.sysExitRw .read), .poll, .poll]

theorem allowed_oneRead :
    AllowedRun (step PosixMonitor.shellTrace) (Allowed PosixMonitor.shellTrace)
      (init ∅) oneRead := by
  refine allowedRun_cons_iff.mpr ⟨trivial, ?_⟩
  refine allowedRun_cons_iff.mpr
    ⟨⟨rfl, PosixMonitor.shellTrace_emplaced, by decide⟩, ?_⟩
  refine allowedRun_cons_iff.mpr ⟨fun _ => by decide, ?_⟩
  refine allowedRun_cons_iff.mpr ⟨fun _ => by decide, ?_⟩
  refine allowedRun_cons_iff.mpr ⟨trivial, ?_⟩
  refine allowedRun_cons_iff.mpr ⟨fun _ => by decide, ?_⟩
  refine allowedRun_cons_iff.mpr ⟨fun _ => by decide, ?_⟩
  refine allowedRun_cons_iff.mpr ⟨trivial, ?_⟩
  exact allowedRun_cons_iff.mpr ⟨trivial, trivial⟩

theorem tells_records_oneRead :
    ∃ s, run (step PosixMonitor.shellTrace) (init ∅) oneRead = .ok s ∧
      Throughout IoLog.EndsBegun
        [.opened 2 3 "data", .began 3 3 .read 64 4096, .ended 4 3 64 4096] ∧
      List.Forall₂ (PosixMonitor.shellTrace.Tells s.monitor.ioHandles ⟨10⟩)
        (s.monitor.eventsOf ⟨10⟩)
        [.opened 2 3 "data", .began 3 3 .read 64 4096, .ended 4 3 64 4096] := by
  obtain ⟨s, reached, all⟩ := tells_records Registry.ofMap_lawful (fun _ => rfl)
    (show ∀ file, PosixStep.openCount file oneRead < 2 ^ 31 from
      fun _ => List.countP_le_length.trans_lt (by decide)) allowed_oneRead
  have drained : (run (step PosixMonitor.shellTrace) (init ∅) oneRead).map
      (·.bpf.rb) = .ok [] := by
    decide
  rw [reached] at drained
  obtain ⟨begun, told, _, complete, tells⟩ := all 10
  rw [complete (Except.ok.inj drained)] at tells
  exact ⟨s, reached, begun, tells⟩

/-- The name of a file that a thread opens. -/
def opened? (pid : UInt32) : PosixStep → Option String
  | .probe call (.doFilpOpen name) => if call.pid = pid then some name else none
  | _ => none

/-- The name of the file a thread has opened last. -/
def lastOpened (pid : UInt32) (steps : List PosixStep) : Option String :=
  (steps.filterMap (opened? pid)).getLast?

theorem lastOpened_concat (pid : UInt32) (steps : List PosixStep)
    (input : PosixStep) :
    lastOpened pid (steps ++ [input]) =
      (opened? pid input).or (lastOpened pid steps) := by
  cases opened : opened? pid input <;>
    simp [lastOpened, List.filterMap_append, opened]

/-- A thread with the number is inserted. -/
def inserts (pid : UInt32) : PosixStep → Bool
  | .insertThread thread => thread.pid = pid
  | _ => false

theorem insertions_concat (pid : UInt32) (steps : List PosixStep)
    (input : PosixStep) :
    (steps ++ [input]).countP (inserts pid) =
      steps.countP (inserts pid) + if inserts pid input then 1 else 0 := by
  rw [List.countP_append, List.countP_singleton]

/-- What is known of the name a thread has in `open_cache`, where the thread is
inserted once. -/
structure NameKnown (pid : UInt32) (steps : List PosixStep) (t : ThreadIo) :
    Prop where
  before : steps.countP (inserts pid) = 0 → t.recorded = false ∧ t.name = none
  once : steps.countP (inserts pid) ≤ 1 → t.recorded = true → ∀ name,
    t.name = some name →
      ∃ file, lastOpened pid steps = some file ∧ name = readKernelStr file

theorem probe_kept (t : ThreadIo) (call : BpfCall) {probe : PosixProbe}
    (notOpen : ∀ name, probe ≠ .doFilpOpen name) :
    (t.probe call probe).recorded = t.recorded ∧
      (t.probe call probe).name = t.name := by
  have noted : ∀ change, (t.note call change).recorded = t.recorded ∧
      (t.note call change).name = t.name := by
    intro change
    rw [ThreadIo.note]
    split_ifs <;> exact ⟨rfl, rfl⟩
  cases probe with
  | doFilpOpen name => exact absurd rfl (notOpen name)
  | sysExitOpenat ret =>
      rw [ThreadIo.probe]
      split
      · exact ⟨rfl, rfl⟩
      · split_ifs
        · exact ⟨rfl, rfl⟩
        · exact noted _
  | sysEnterClose fd => exact noted _
  | sysEnterRw mode fd buf count => exact noted _
  | sysExitRw mode => exact noted _

/-- A step that inserts nobody, after which a thread that is recorded has the
name it had. -/
theorem NameKnown.kept {pid : UInt32} {t t' : ThreadIo} {input : PosixStep}
    (known : NameKnown pid steps t) (inserted : inserts pid input = false)
    (opened : t'.recorded = true → opened? pid input = none)
    (recorded : t'.recorded = true → t.recorded = true)
    (name : ∀ name, t'.name = some name → t.name = some name) :
    NameKnown pid (steps ++ [input]) t' := by
  have same : (steps ++ [input]).countP (inserts pid) =
      steps.countP (inserts pid) := by
    rw [insertions_concat, inserted]
    rfl
  constructor
  · intro none
    obtain ⟨notRecorded, noName⟩ := known.before (same ▸ none)
    constructor
    · rw [Bool.eq_false_iff]
      intro now
      rw [recorded now] at notRecorded
      cases notRecorded
    · cases now : t'.name with
      | none => rfl
      | some other => exact noName.symm.trans (name other now) |>.symm
  · intro once now other named
    obtain ⟨file, last, cut⟩ :=
      known.once (same ▸ once) (recorded now) other (name other named)
    refine ⟨file, ?_, cut⟩
    rw [lastOpened_concat, opened now, last, Option.none_or]

theorem opened?_probe (pid : UInt32) (call : BpfCall) {probe : PosixProbe}
    (notOpen : ∀ name, probe ≠ .doFilpOpen name) :
    opened? pid (.probe call probe) = none := by
  cases probe with
  | doFilpOpen name => exact absurd rfl (notOpen name)
  | sysExitOpenat _ => rfl
  | sysEnterClose _ => rfl
  | sysEnterRw _ _ _ _ => rfl
  | sysExitRw _ => rfl

/-- A probe gives the name of the file that is opened, and else leaves it. -/
theorem NameKnown.probe {pid : UInt32} {t : ThreadIo}
    (known : NameKnown pid steps t) (call : BpfCall) (probe : PosixProbe) :
    NameKnown pid (steps ++ [.probe call probe])
      (t.step pid (.probe call probe)) := by
  rw [ThreadIo.step]
  by_cases opens : ∃ name, probe = .doFilpOpen name
  · obtain ⟨name, rfl⟩ := opens
    split_ifs with own
    · obtain ⟨rfl, recorded⟩ := own
      refine ⟨fun none => ?_, fun _ _ other named => ⟨name, ?_, ?_⟩⟩
      · rw [insertions_concat] at none
        rw [(known.before none).1] at recorded
        cases recorded
      · rw [lastOpened_concat, opened?, if_pos rfl, Option.some_or]
      · exact (Option.some.inj named).symm
    · apply known.kept rfl ?_ id (fun _ named => named)
      exact fun recorded => if_neg fun same => own ⟨same, recorded⟩
  · have notOpen := not_exists.mp opens
    have nothing := opened?_probe pid call notOpen
    split_ifs
    · obtain ⟨sameRecorded, sameName⟩ := probe_kept t call notOpen
      exact known.kept rfl (fun _ => nothing) sameRecorded.symm.trans
        (fun _ => sameName.symm.trans)
    · exact known.kept rfl (fun _ => nothing) id (fun _ named => named)

theorem NameKnown.step {pid : UInt32} {t : ThreadIo}
    (known : NameKnown pid steps t) (input : PosixStep) :
    NameKnown pid (steps ++ [input]) (t.step pid input) := by
  cases input with
  | insertThread thread =>
      rw [ThreadIo.step]
      split_ifs with own
      · have one : inserts pid (.insertThread thread) = true :=
          decide_eq_true own
        constructor
        · intro none
          rw [insertions_concat, one] at none
          cases none
        · intro once _ name named
          rw [insertions_concat, one] at once
          have none := (known.before (by simpa using once)).2
          rw [none] at named
          cases named
      · exact known.kept (decide_eq_false own) (fun _ => rfl) id
          (fun _ named => named)
  | resetLastFd thread =>
      rw [ThreadIo.step]
      split_ifs <;>
        exact known.kept rfl (fun _ => rfl) id (fun _ named => named)
  | exitThread thread =>
      rw [ThreadIo.step]
      split_ifs
      · exact known.kept rfl (fun _ => rfl) (by simp) (fun _ named => named)
      · exact known.kept rfl (fun _ => rfl) id (fun _ named => named)
  | evictPid other =>
      rw [ThreadIo.step]
      split_ifs
      · exact known.kept rfl (fun _ => rfl) (by simp) (fun _ named => named)
      · exact known.kept rfl (fun _ => rfl) id (fun _ named => named)
  | evictOpen other =>
      rw [ThreadIo.step]
      split_ifs
      · exact known.kept rfl (fun _ => rfl) id (by simp)
      · exact known.kept rfl (fun _ => rfl) id (fun _ named => named)
  | poll => exact known.kept rfl (fun _ => rfl) id (fun _ named => named)
  | probe call probe => exact known.probe call probe

theorem nameKnown (pid : UInt32) (steps : List PosixStep) :
    NameKnown pid steps (ThreadIo.after pid steps) := by
  induction steps using List.reverseRecOn with
  | nil =>
      refine ⟨fun _ => ⟨rfl, rfl⟩, fun _ never => ?_⟩
      cases never
  | append_singleton steps input known =>
      rw [ThreadIo.after_concat]
      exact known.step input

/-- Where a thread is inserted once, an event about a file it has opened has the
name of the file it has opened last, up to 255 characters. -/
theorem opened_named {s : PosixPipeline ρ η} {steps : List PosixStep}
    (reached : run (step trace) (init ioHandles) steps = .ok s)
    {call : BpfCall} (once : steps.countP (inserts call.pid) ≤ 1)
    {probe : PosixProbe} {header : PosixEventHeader} {filename : String}
    (adds : .openFile header filename ∈ s.bpf.added call probe) :
    ∃ file, lastOpened call.pid steps = some file ∧
      filename = readKernelStr file := by
  obtain ⟨known, about⟩ := PosixIoBpf.mem_added adds
  have watches := watches_of_run reached call.pid
  apply (nameKnown call.pid steps).once once (watches.recorded.mpr known)
  cases probe with
  | sysExitOpenat ret =>
      simp only [PosixIoBpf.eventAt] at about
      split_ifs at about
      obtain ⟨cached, found, same⟩ := Option.map_eq_some_iff.mp about
      cases same
      exact watches.name.trans found
  | doFilpOpen name => cases about
  | sysEnterClose fd => cases about
  | sysEnterRw mode fd buf count => cases about
  | sysExitRw mode => cases about

theorem opened_named_data :
    ∃ s, run (step PosixMonitor.shellTrace) (init ∅) (oneRead.take 3) = .ok s ∧
      ∃ file, lastOpened 10 (oneRead.take 3) = some file ∧
        "data" = readKernelStr file := by
  refine ⟨_, rfl, ?_⟩
  have adds : PosixEvent.openFile ⟨2, 10, 3⟩ "data" ∈ PosixIoBpf.added
      ⟨10, 2, true, 0⟩ (.sysExitOpenat 3) ⟨AList.singleton 10 1,
        AList.singleton 10 "data", []⟩ := by
    decide
  have once : (oneRead.take 3).countP (inserts 10) ≤ 1 := by
    decide
  exact opened_named
    (show run (step PosixMonitor.shellTrace) (init ∅) (oneRead.take 3) = .ok _
      from rfl) once adds

/-- A thread ends, and another one gets its number and is inserted between the
two probes of its `open()`: the event has the name of the file of the first. -/
example : (run (step PosixMonitor.shellTrace) (init ∅)
    [.insertThread ⟨10⟩, .probe ⟨10, 1, true, 0⟩ (.doFilpOpen "first"),
      .exitThread ⟨10⟩, .probe ⟨10, 2, true, 0⟩ (.doFilpOpen "second"),
      .insertThread ⟨10⟩, .probe ⟨10, 3, true, 0⟩ (.sysExitOpenat 3)]).map
        (·.bpf.rb) = .ok [.openFile ⟨3, 10, 3⟩ "first"] := by
  decide

end PosixPipeline

end Lo2s
