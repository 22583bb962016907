import Lo2s.RingbufConnection

/-!
# Every client has a ring buffer and a monitor of its own

Whatever the order in which clients connect, write and end, and in which the
monitor of the socket accepts and stops, no two clients share a ring buffer, no
two monitors read from one, and the monitor of a buffer has the type and the
process of the client that writes into it.
-/

namespace Lo2s

open Foundation RingbufSession

/-- What a client has stored into its ring buffer so far. -/
structure Serves (client : RingbufClient) (ring : SharedRing) : Prop where
  type : ring.type =
    if client.stage = .connected then client.type.toUInt64 else 0
  pid : client.stage = .named ∨ client.stage = .connected →
    ring.pid = client.process.pid
  sent : client.sent = ring.session.committed
  queued : ∃ pending, Framing ring.session pending ∧
    ring.session.committed = ring.session.popped ++ pending

namespace SocketMonitor

/-- A monitor reads the ring buffer of one client, whose type and process it
has, and has received what was taken out of the buffer. -/
structure Monitors (s : SocketMonitor) (type : RingbufMeasurementType)
    (monitor : RingbufMonitor) (c : Nat) (client : RingbufClient)
    (ring : SharedRing) : Prop where
  known : s.clients.lookup c = some client
  mapped : s.rings.lookup monitor.ring = some ring
  shared : client.ring = some monitor.ring
  connected : client.stage = .connected
  sameType : client.type = type
  process : monitor.process = client.process
  received : monitor.received = ring.session.popped

/-- What holds between any two steps. -/
structure Agreed (s : SocketMonitor) : Prop where
  clientKnown : ∀ c client, s.clients.lookup c = some client → c < s.nextClient
  ringKnown : ∀ r ring, s.rings.lookup r = some ring → r < s.nextRing
  served : ∀ c client r, s.clients.lookup c = some client →
    client.ring = some r → ∃ ring, s.rings.lookup r = some ring ∧
      Serves client ring
  oneClient : ∀ c client other otherClient r,
    s.clients.lookup c = some client →
    s.clients.lookup other = some otherClient → client.ring = some r →
    otherClient.ring = some r → other = c
  unserved : ∀ c client, s.clients.lookup c = some client →
    (client.ring = none ↔ client.stage = .connecting)
  silent : ∀ c client, s.clients.lookup c = some client →
    client.ring = none → client.sent = []
  inLine : ∀ c ∈ s.backlog, ∃ client, s.clients.lookup c = some client ∧
    client.ring = none
  inLineOnce : s.backlog.Nodup
  monitored : ∀ type fd monitor, (s.monitors type).lookup fd = some monitor →
    ∃ c client ring, s.Monitors type monitor c client ring
  oneMonitor : ∀ type fd monitor otherType other otherMonitor,
    (s.monitors type).lookup fd = some monitor →
    (s.monitors otherType).lookup other = some otherMonitor →
    otherMonitor.ring = monitor.ring → otherType = type ∧ other = fd
  oneDescriptor : ∀ fd, fd ∈ s.gpuMonitors → fd ∉ s.openmpMonitors
  read : ∀ r ring, s.rings.lookup r = some ring →
    (∃ fd, s.phase = .waiting fd r) ∨ ∃ type fd monitor,
      (s.monitors type).lookup fd = some monitor ∧ monitor.ring = r
  waited : ∀ fd r, s.phase = .waiting fd r →
    (∃ c client, s.clients.lookup c = some client ∧ client.ring = some r) ∧
    (∀ ring, s.rings.lookup r = some ring → ring.session.popped = []) ∧
    (∀ type, fd ∉ s.monitors type) ∧
    ∀ type other monitor, (s.monitors type).lookup other = some monitor →
      monitor.ring ≠ r

theorem Agreed.start (size : BufferSize) : (start size).Agreed := by
  have noClient : ∀ c, (SocketMonitor.start size).clients.lookup c = none :=
    fun _ => rfl
  have noRing : ∀ r, (SocketMonitor.start size).rings.lookup r = none :=
    fun _ => rfl
  have noMonitor : ∀ type fd,
      ((SocketMonitor.start size).monitors type).lookup fd = none := by
    intro type fd
    cases type <;> rfl
  exact
    { clientKnown := fun c _ found => by rw [noClient] at found; cases found
      ringKnown := fun r _ found => by rw [noRing] at found; cases found
      served := fun c _ _ found => by rw [noClient] at found; cases found
      oneClient := fun c _ _ _ _ found => by rw [noClient] at found; cases found
      unserved := fun c _ found => by rw [noClient] at found; cases found
      silent := fun c _ found => by rw [noClient] at found; cases found
      inLine := fun _ member => absurd member List.not_mem_nil
      inLineOnce := .nil
      monitored := fun _ _ _ found => by rw [noMonitor] at found; cases found
      oneMonitor := fun _ _ _ _ _ _ found => by
        rw [noMonitor] at found
        cases found
      oneDescriptor := fun fd member => absurd member (AList.notMem_empty fd)
      read := fun r _ found => by rw [noRing] at found; cases found
      waited := fun _ _ waits => by cases waits }

/-- One client has changed, and the ring buffer it was sent. -/
structure Advances (s next : SocketMonitor) (c : Nat)
    (client client' : RingbufClient) : Prop where
  known : s.clients.lookup c = some client
  clients : ∀ other, next.clients.lookup other =
    if other = c then some client' else s.clients.lookup other
  sameRing : client'.ring = client.ring
  sameType : client'.type = client.type
  sameProcess : client'.process = client.process
  onward : client.stage = .connected → client'.stage = .connected
  started : client'.ring = none ↔ client'.stage = .connecting
  silent : client.ring = none → client'.sent = client.sent
  own : ∀ r ring, client.ring = some r → s.rings.lookup r = some ring →
    Serves client ring → ∃ ring', next.rings.lookup r = some ring' ∧
      Serves client' ring' ∧ ring'.session.popped = ring.session.popped
  others : ∀ r, client.ring ≠ some r →
    next.rings.lookup r = s.rings.lookup r
  nextClient : next.nextClient = s.nextClient
  nextRing : next.nextRing = s.nextRing
  backlog : next.backlog = s.backlog
  phase : next.phase = s.phase
  gpuMonitors : next.gpuMonitors = s.gpuMonitors
  openmpMonitors : next.openmpMonitors = s.openmpMonitors

variable {s next : SocketMonitor}

theorem Advances.monitors {c : Nat} {client client' : RingbufClient}
    (advances : Advances s next c client client')
    (type : RingbufMeasurementType) : next.monitors type = s.monitors type := by
  cases type with
  | unset => rfl
  | gpu => exact advances.gpuMonitors
  | openmp => exact advances.openmpMonitors

theorem Agreed.advance (agreed : s.Agreed) {c : Nat}
    {client client' : RingbufClient}
    (advances : Advances s next c client client') : next.Agreed := by
  have known := advances.known
  have clients := advances.clients
  -- The client's own ring buffer, before and after.
  have own : ∀ r, client.ring = some r → ∃ ring ring',
      s.rings.lookup r = some ring ∧ next.rings.lookup r = some ring' ∧
        Serves client' ring' ∧ ring'.session.popped = ring.session.popped := by
    intro r shared
    obtain ⟨ring, mapped, serves⟩ := agreed.served c client r known shared
    obtain ⟨ring', there, changed⟩ := advances.own r ring shared mapped serves
    exact ⟨ring, ring', mapped, there, changed⟩
  -- The buffer of any other client is another one.
  have apart : ∀ {other otherClient r}, s.clients.lookup other =
      some otherClient → other ≠ c → otherClient.ring = some r →
        next.rings.lookup r = s.rings.lookup r := by
    intro other otherClient r found different has
    apply advances.others
    intro shared
    exact different
      (agreed.oneClient c client other otherClient r known found shared has)
  refine
    { clientKnown := ?_, ringKnown := ?_, served := ?_, oneClient := ?_,
      unserved := ?_, silent := ?_, inLine := ?_, inLineOnce := ?_,
      monitored := ?_, oneMonitor := ?_, oneDescriptor := ?_, read := ?_,
      waited := ?_ }
  · intro other otherClient found
    rw [clients] at found
    rw [advances.nextClient]
    split at found
    · next same => exact same ▸ agreed.clientKnown c client known
    · exact agreed.clientKnown other otherClient found
  · intro r ring found
    rw [advances.nextRing]
    by_cases shared : client.ring = some r
    · obtain ⟨old, _, mapped, _⟩ := own r shared
      exact agreed.ringKnown r old mapped
    · rw [advances.others r shared] at found
      exact agreed.ringKnown r ring found
  · intro other otherClient r found has
    rw [clients] at found
    split at found
    · cases found
      obtain ⟨_, ring', _, there, serves, _⟩ :=
        own r (advances.sameRing.symm.trans has)
      exact ⟨ring', there, serves⟩
    · next different =>
        rw [apart found different has]
        exact agreed.served other otherClient r found has
  · intro first firstClient second secondClient r found otherFound has otherHas
    rw [clients] at found otherFound
    split at found <;> split at otherFound
    · next same other => exact other.trans same.symm
    · next same other =>
        cases found
        rw [advances.sameRing] at has
        exact absurd (agreed.oneClient c client second secondClient r known
          otherFound has otherHas) other
    · next other same =>
        cases otherFound
        rw [advances.sameRing] at otherHas
        exact absurd (agreed.oneClient c client first firstClient r known found
          otherHas has) other
    · exact agreed.oneClient first firstClient second secondClient r found
        otherFound has otherHas
  · intro other otherClient found
    rw [clients] at found
    split at found
    · cases found
      exact advances.started
    · exact agreed.unserved other otherClient found
  · intro other otherClient found free
    rw [clients] at found
    split at found
    · cases found
      rw [advances.sameRing] at free
      rw [advances.silent free]
      exact agreed.silent c client known free
    · exact agreed.silent other otherClient found free
  · intro other member
    rw [advances.backlog] at member
    obtain ⟨waiting, found, free⟩ := agreed.inLine other member
    by_cases same : other = c
    · subst same
      cases known.symm.trans found
      exact ⟨client', by rw [clients, if_pos rfl], advances.sameRing.trans free⟩
    · exact ⟨waiting, by rw [clients, if_neg same, found], free⟩
  · rw [advances.backlog]
    exact agreed.inLineOnce
  · intro type fd monitor found
    rw [advances.monitors] at found
    obtain ⟨owner, old, oldRing, monitors⟩ :=
      agreed.monitored type fd monitor found
    by_cases same : owner = c
    · subst same
      cases known.symm.trans monitors.known
      obtain ⟨ring, ring', mapped, there, _, popped⟩ := own _ monitors.shared
      cases mapped.symm.trans monitors.mapped
      exact ⟨owner, client', ring',
        { known := by rw [clients, if_pos rfl]
          mapped := there
          shared := advances.sameRing.trans monitors.shared
          connected := advances.onward monitors.connected
          sameType := advances.sameType.trans monitors.sameType
          process := monitors.process.trans advances.sameProcess.symm
          received := monitors.received.trans popped.symm }⟩
    · exact ⟨owner, old, oldRing,
        { monitors with
          known := by rw [clients, if_neg same]; exact monitors.known
          mapped := by
            rw [apart monitors.known same monitors.shared]
            exact monitors.mapped }⟩
  · intro type fd monitor otherType other otherMonitor found otherFound
    rw [advances.monitors] at found otherFound
    exact agreed.oneMonitor type fd monitor otherType other otherMonitor found
      otherFound
  · rw [advances.gpuMonitors, advances.openmpMonitors]
    exact agreed.oneDescriptor
  · intro r ring found
    simp only [advances.monitors, advances.phase]
    by_cases shared : client.ring = some r
    · obtain ⟨old, _, mapped, _⟩ := own r shared
      exact agreed.read r old mapped
    · rw [advances.others r shared] at found
      exact agreed.read r ring found
  · intro fd r waits
    rw [advances.phase] at waits
    obtain ⟨⟨owner, old, found, has⟩, unread, fresh, free⟩ :=
      agreed.waited fd r waits
    simp only [advances.monitors]
    refine ⟨?_, ?_, fresh, free⟩
    · by_cases same : owner = c
      · subst same
        cases known.symm.trans found
        exact ⟨owner, client', by rw [clients, if_pos rfl],
          advances.sameRing.trans has⟩
      · exact ⟨owner, old, by rw [clients, if_neg same, found], has⟩
    · intro ring there
      by_cases shared : client.ring = some r
      · obtain ⟨before, ring', mapped, after, _, popped⟩ := own r shared
        cases after.symm.trans there
        rw [popped]
        exact unread before mapped
      · rw [advances.others r shared] at there
        exact unread ring there

theorem Advances.ofClient {c : Nat} {client client' : RingbufClient}
    (known : s.clients.lookup c = some client)
    (sameRing : client'.ring = client.ring)
    (sameType : client'.type = client.type)
    (sameProcess : client'.process = client.process)
    (onward : client.stage = .connected → client'.stage = .connected)
    (started : client'.ring = none ↔ client'.stage = .connecting)
    (sameSent : client'.sent = client.sent)
    (serves : ∀ ring, Serves client ring → Serves client' ring) :
    Advances s { s with clients := s.clients.insert c client' } c client
      client' where
  known := known
  clients := fun other => FiniteMap.lookup_insert c other client' s.clients
  sameRing := sameRing
  sameType := sameType
  sameProcess := sameProcess
  onward := onward
  started := started
  silent := fun _ => sameSent
  own := fun _ ring _ mapped served => ⟨ring, mapped, serves ring served, rfl⟩
  others := fun _ _ => rfl
  nextClient := rfl
  nextRing := rfl
  backlog := rfl
  phase := rfl
  gpuMonitors := rfl
  openmpMonitors := rfl

theorem Advances.ofRing {c r : Nat} {client client' : RingbufClient}
    {ring ring' : SharedRing} (known : s.clients.lookup c = some client)
    (shared : client.ring = some r) (mapped : s.rings.lookup r = some ring)
    (sameRing : client'.ring = client.ring)
    (sameType : client'.type = client.type)
    (sameProcess : client'.process = client.process)
    (onward : client.stage = .connected → client'.stage = .connected)
    (started : client'.stage ≠ .connecting)
    (serves : Serves client ring → Serves client' ring')
    (samePopped : ring'.session.popped = ring.session.popped) :
    Advances s { s with
      clients := s.clients.insert c client'
      rings := s.rings.insert r ring' } c client client' where
  known := known
  clients := fun other => FiniteMap.lookup_insert c other client' s.clients
  sameRing := sameRing
  sameType := sameType
  sameProcess := sameProcess
  onward := onward
  started := by
    rw [sameRing, shared]
    exact ⟨fun absent => (by cases absent), fun first => absurd first started⟩
  silent := by
    intro free
    rw [shared] at free
    cases free
  own := by
    intro other old has there served
    cases shared.symm.trans has
    cases mapped.symm.trans there
    exact ⟨ring', AList.lookup_insert s.rings, serves served, samePopped⟩
  others := by
    intro other different
    apply AList.lookup_insert_ne
    rintro rfl
    exact different shared
  nextClient := rfl
  nextRing := rfl
  backlog := rfl
  phase := rfl
  gpuMonitors := rfl
  openmpMonitors := rfl

theorem clientAt_spec {stage : WriterStage} {c r : Nat} {client : RingbufClient}
    {ring : SharedRing} (found : s.clientAt stage c = some (client, r, ring)) :
    s.clients.lookup c = some client ∧ client.ring = some r ∧
      s.rings.lookup r = some ring ∧ client.alive = true ∧
        client.stage = stage := by
  simp only [clientAt, Option.bind_eq_bind, Option.bind_eq_some_iff,
    Option.ite_none_right_eq_some, Option.some.injEq] at found
  obtain ⟨other, known, buffer, shared, file, mapped, both, same⟩ := found
  cases same
  exact ⟨known, shared, mapped, both⟩

theorem Agreed.exit (agreed : s.Agreed) (c : Nat) : (s.exit c).Agreed := by
  unfold SocketMonitor.exit
  split
  · exact agreed
  · next client known =>
      exact agreed.advance (.ofClient known rfl rfl rfl id
        (agreed.unserved c client known) rfl
        fun _ serves => ⟨serves.type, serves.pid, serves.sent, serves.queued⟩)

theorem Agreed.receive (agreed : s.Agreed) (c : Nat) :
    (s.receive c).Agreed := by
  unfold SocketMonitor.receive
  split
  · exact agreed
  · next client r ring found =>
      obtain ⟨known, shared, mapped, _, stage⟩ := clientAt_spec found
      by_cases version : ring.version ≠ client.version
      · simp only [if_pos version]
        exact agreed.advance (.ofClient known rfl rfl rfl id
          (agreed.unserved c client known) rfl
          fun _ serves => ⟨serves.type, serves.pid, serves.sent, serves.queued⟩)
      · simp only [if_neg version]
        refine agreed.advance (.ofClient known rfl rfl rfl ?_ ?_ rfl ?_)
        · intro connected
          rw [stage] at connected
          cases connected
        · rw [shared]
          simp
        · intro other serves
          have type := serves.type
          rw [stage] at type
          exact ⟨type, fun later => by simp at later, serves.sent,
            serves.queued⟩

theorem Agreed.storePid (agreed : s.Agreed) (c : Nat) :
    (s.storePid c).Agreed := by
  unfold SocketMonitor.storePid
  split
  · exact agreed
  · next client r ring found =>
      obtain ⟨known, shared, mapped, _, stage⟩ := clientAt_spec found
      refine agreed.advance (.ofRing known shared mapped rfl rfl rfl ?_ ?_ ?_
        rfl)
      · intro connected
        rw [stage] at connected
        cases connected
      · simp
      · intro serves
        have type := serves.type
        rw [stage] at type
        exact ⟨type, fun _ => rfl, serves.sent, serves.queued⟩

theorem Agreed.storeType (agreed : s.Agreed) (c : Nat) :
    (s.storeType c).Agreed := by
  unfold SocketMonitor.storeType
  split
  · exact agreed
  · next client r ring found =>
      obtain ⟨known, shared, mapped, _, stage⟩ := clientAt_spec found
      refine agreed.advance (.ofRing known shared mapped rfl rfl rfl
        (fun _ => rfl) ?_ ?_ rfl)
      · simp
      · intro serves
        exact ⟨(if_pos rfl).symm, fun _ => serves.pid (.inl stage), serves.sent,
          serves.queued⟩

end SocketMonitor

theorem RingbufSession.step_popped {before after : RingbufSession}
    {op : RingbufStep} (writers : op.isWriters = true)
    (stepped : before.step op = .ok after) : after.popped = before.popped := by
  cases op with
  | reserve request =>
      simp only [RingbufSession.step, RingbufSession.reserve] at stepped
      split at stepped
      · cases stepped
      · split at stepped
        · cases stepped
        · cases stepped
          rfl
        · split at stepped
          · cases stepped
          · split at stepped <;> cases stepped
            rfl
  | fill offset byte =>
      simp only [RingbufSession.step, RingbufSession.fill] at stepped
      split at stepped <;> cases stepped
      rfl
  | commit =>
      simp only [RingbufSession.step, RingbufSession.commit] at stepped
      split at stepped <;> cases stepped
      rfl
  | empty => cases writers
  | get => cases writers
  | pop => cases writers

theorem RingbufSession.step_committed {before after : RingbufSession}
    {op : RingbufStep} (readers : op.isWriters = false)
    (stepped : before.step op = .ok after) :
    after.committed = before.committed := by
  cases op with
  | reserve request => cases readers
  | fill offset byte => cases readers
  | commit => cases readers
  | empty =>
      simp only [RingbufSession.step] at stepped
      split at stepped <;> cases stepped
      rfl
  | get =>
      simp only [RingbufSession.step] at stepped
      split at stepped <;> cases stepped
      rfl
  | pop =>
      simp only [RingbufSession.step, RingbufSession.pop] at stepped
      split at stepped
      · cases stepped
      · cases stepped
        rfl
      · split at stepped
        · cases stepped
        · split at stepped <;> cases stepped
          rfl

/-- An operation of the writer that neither overflows nor fills the buffer up
succeeds, and what it commits is what the client has sent. -/
theorem Serves.write {client : RingbufClient} {ring : SharedRing}
    (serves : Serves client ring) {op : RingbufStep}
    (writers : op.isWriters = true) (allowed : ring.session.Allowed op)
    (fits : ¬ ring.session.Overflows op) (spare : ¬ ring.session.FillsUp op) :
    ∃ session, ring.session.step op = .ok session ∧
      Serves { client with sent := client.sent ++
          session.committed.drop ring.session.committed.length }
        { ring with session := session } ∧
      session.popped = ring.session.popped := by
  obtain ⟨pending, framing, logs⟩ := serves.queued
  obtain ⟨session, after, stepped, framed, effect⟩ :=
    framing.step allowed fits
  have unread := RingbufSession.step_popped writers stepped
  refine ⟨session, stepped, ⟨serves.type, serves.pid, ?_, after, framed, ?_⟩,
    unread⟩
  · change client.sent ++ _ = session.committed
    rw [serves.sent]
    cases effect with
    | same _ committed _ => rw [committed, List.drop_length, List.append_nil]
    | commit event _ committed _ => rw [committed, List.drop_left]
    | pop event events _ _ committed _ =>
        rw [committed, List.drop_length, List.append_nil]
    | lose event full => exact absurd full spare
  · change session.committed = session.popped ++ after
    rw [unread]
    cases effect with
    | same _ committed _ => rw [committed, logs]
    | commit event _ committed _ => rw [committed, logs, List.append_assoc]
    | pop event events _ _ _ popped =>
        have lengths := congrArg List.length (popped.symm.trans unread)
        simp at lengths
    | lose event full => exact absurd full spare

/-- An operation of the reader succeeds, and takes out what has been committed
next. -/
theorem Serves.read {client : RingbufClient} {ring : SharedRing}
    (serves : Serves client ring) {op : RingbufStep}
    (readers : op.isWriters = false) :
    ∃ session, ring.session.step op = .ok session ∧
      Serves client { ring with session := session } ∧
      ring.session.popped ++ session.popped.drop ring.session.popped.length =
        session.popped := by
  obtain ⟨pending, framing, logs⟩ := serves.queued
  have nothing : ring.session.Allowed op ∧ ¬ ring.session.Overflows op ∧
      ¬ ring.session.FillsUp op := by
    cases op with
    | reserve _ => cases readers
    | fill _ _ => cases readers
    | commit => cases readers
    | empty => exact ⟨trivial, id, id⟩
    | get => exact ⟨trivial, id, id⟩
    | pop => exact ⟨trivial, id, id⟩
  obtain ⟨allowed, fits, spare⟩ := nothing
  obtain ⟨session, after, stepped, framed, effect⟩ :=
    framing.step allowed fits
  have kept := RingbufSession.step_committed readers stepped
  refine ⟨session, stepped,
    ⟨serves.type, serves.pid, serves.sent.trans kept.symm, after, framed, ?_⟩,
    ?_⟩
  · change session.committed = session.popped ++ after
    rw [kept, logs]
    cases effect with
    | same _ _ popped => rw [popped]
    | commit event _ committed _ =>
        have lengths := congrArg List.length (committed.symm.trans kept)
        simp at lengths
    | pop event events _ shape _ popped =>
        rw [popped, shape, List.append_assoc]
        rfl
    | lose event full => exact absurd full spare
  · cases effect with
    | same _ _ popped => rw [popped, List.drop_length, List.append_nil]
    | commit event _ _ popped => rw [popped, List.drop_length, List.append_nil]
    | pop event events _ _ _ popped => rw [popped, List.drop_left]
    | lose event full => exact absurd full spare

namespace SocketMonitor

variable {s next : SocketMonitor}

/-- Which steps are taken: a client that is first in line has not ended when it
is accepted, and no event overflows a ring buffer or fills it up completely. -/
def Allowed (s : SocketMonitor) : SocketStep → Prop
  | .accept _ => ∀ c, s.backlog.head? = some c → ∀ client,
      s.clients.lookup c = some client → client.alive = true
  | .write c op => ∀ client r ring,
      s.clientAt .connected c = some (client, r, ring) →
        ¬ ring.session.Overflows op ∧ ¬ ring.session.FillsUp op
  | _ => True

instance (s : RingbufSession) : (op : RingbufStep) → Decidable (s.Overflows op)
  | .reserve _ => inferInstanceAs (Decidable (_ ≤ _))
  | .fill _ _ | .commit | .empty | .get | .pop => isFalse id

instance (s : RingbufSession) : (op : RingbufStep) → Decidable (s.FillsUp op)
  | .commit => inferInstanceAs (Decidable (_ = _))
  | .reserve _ | .fill _ _ | .empty | .get | .pop => isFalse id

instance (s : SocketMonitor) : (input : SocketStep) →
    Decidable (s.Allowed input)
  | .accept _ => decidable_of_iff
      (∀ client ∈ s.backlog.head?.bind fun c => s.clients.lookup c,
        client.alive = true) (by
          simp only [Allowed, Option.mem_def, Option.bind_eq_some_iff]
          exact ⟨fun all c first client known => all client ⟨c, first, known⟩,
            fun all client found =>
              let ⟨c, first, known⟩ := found
              all c first client known⟩)
  | .write c op => decidable_of_iff
      (∀ found ∈ s.clientAt .connected c,
        ¬ found.2.2.session.Overflows op ∧ ¬ found.2.2.session.FillsUp op)
      (by simp [Allowed])
  | .connect _ _ _ | .receive _ | .storePid _ | .storeType _ | .dispatch
  | .exit _ | .stop | .read _ | .join => isTrue trivial

theorem Agreed.write (agreed : s.Agreed) {c : Nat} {op : RingbufStep}
    (allowed : s.Allowed (.write c op)) :
    ∃ next, s.write c op = .ok next ∧ next.Agreed := by
  unfold SocketMonitor.write
  split
  · exact ⟨s, rfl, agreed⟩
  · next client r ring found =>
      obtain ⟨known, shared, mapped, _, stage⟩ := clientAt_spec found
      obtain ⟨fits, spare⟩ := allowed client r ring found
      by_cases writers : op.isWriters = true ∧ ring.session.Allowed op
      · rw [if_pos writers]
        obtain ⟨same, there, serves⟩ := agreed.served c client r known shared
        cases mapped.symm.trans there
        obtain ⟨session, stepped, written, popped⟩ :=
          serves.write writers.1 writers.2 fits spare
        rw [stepped]
        exact ⟨_, rfl, agreed.advance (.ofRing known shared mapped rfl rfl rfl
          id (by simp [stage]) (fun _ => written) popped)⟩
      · rw [if_neg writers]
        exact ⟨s, rfl, agreed⟩

theorem Agreed.connect (agreed : s.Agreed) (process : Process)
    (type : RingbufMeasurementType) (version : UInt64) :
    (s.connect process type version).Agreed := by
  have clients : ∀ other, (s.connect process type version).clients.lookup other =
      if other = s.nextClient then
        some ⟨process, type, version, .connecting, none, true, []⟩
      else s.clients.lookup other :=
    fun other => FiniteMap.lookup_insert _ other _ s.clients
  have before : ∀ {other client}, s.clients.lookup other = some client →
      (s.connect process type version).clients.lookup other = some client := by
    intro other client found
    rw [clients, if_neg (Nat.ne_of_lt (agreed.clientKnown other client found)),
      found]
  -- A client with a ring buffer has been there before.
  have old : ∀ {other client r},
      (s.connect process type version).clients.lookup other = some client →
        client.ring = some r → s.clients.lookup other = some client := by
    intro other client r found has
    rw [clients] at found
    split at found
    · cases found
      cases has
    · exact found
  refine
    { clientKnown := ?_, ringKnown := agreed.ringKnown, served := ?_,
      oneClient := ?_, unserved := ?_, silent := ?_, inLine := ?_,
      inLineOnce := ?_, monitored := ?_, oneMonitor := agreed.oneMonitor,
      oneDescriptor := agreed.oneDescriptor, read := agreed.read,
      waited := ?_ }
  · intro other client found
    rw [clients] at found
    change other < s.nextClient + 1
    split at found
    · omega
    · exact Nat.lt_succ_of_lt (agreed.clientKnown other client found)
  · intro other client r found has
    exact agreed.served other client r (old found has) has
  · intro first firstClient second secondClient r found otherFound has otherHas
    exact agreed.oneClient first firstClient second secondClient r
      (old found has) (old otherFound otherHas) has otherHas
  · intro other client found
    rw [clients] at found
    split at found
    · cases found
      exact ⟨fun _ => rfl, fun _ => rfl⟩
    · exact agreed.unserved other client found
  · intro other client found free
    rw [clients] at found
    split at found
    · cases found
      rfl
    · exact agreed.silent other client found free
  · intro other member
    rcases List.mem_append.mp member with there | new
    · obtain ⟨client, found, free⟩ := agreed.inLine other there
      exact ⟨client, before found, free⟩
    · rw [List.mem_singleton.mp new]
      exact ⟨_, by rw [clients, if_pos rfl], rfl⟩
  · apply List.Nodup.append agreed.inLineOnce (List.nodup_singleton _)
    intro other there new
    obtain ⟨client, found, _⟩ := agreed.inLine other there
    rw [List.mem_singleton.mp new] at found
    exact Nat.lt_irrefl _ (agreed.clientKnown _ client found)
  · intro kind fd monitor found
    obtain ⟨owner, client, ring, monitors⟩ :=
      agreed.monitored kind fd monitor found
    exact ⟨owner, client, ring, { monitors with known := before monitors.known }⟩
  · intro fd r waits
    obtain ⟨⟨owner, client, found, has⟩, rest⟩ := agreed.waited fd r waits
    exact ⟨⟨owner, client, before found, has⟩, rest⟩

theorem Agreed.accept (agreed : s.Agreed) {fd : Int}
    (allowed : s.Allowed (.accept fd)) :
    ∃ next, s.accept fd = .ok next ∧ next.Agreed := by
  unfold SocketMonitor.accept
  split
  case h_2 => exact ⟨s, rfl, agreed⟩
  case h_1 c backlog phase line =>
    by_cases taken : fd ∈ s.gpuMonitors ∨ fd ∈ s.openmpMonitors
    · rw [if_pos taken]
      exact ⟨s, rfl, agreed⟩
    · rw [if_neg taken]
      rw [not_or] at taken
      obtain ⟨client, known, free⟩ :=
        agreed.inLine c (by rw [line]; exact List.mem_cons_self)
      have alive : client.alive = true :=
        allowed c (by rw [line]; rfl) client known
      have quiet := agreed.silent c client known free
      have later := List.nodup_cons.mp (line ▸ agreed.inLineOnce)
      simp only [known, if_pos alive]
      refine ⟨_, rfl, ?_⟩
      have clients : ∀ other, (s.clients.insert c { client with
          stage := .served, ring := some s.nextRing }).lookup other =
          if other = c then some { client with
            stage := .served, ring := some s.nextRing }
          else s.clients.lookup other :=
        fun other => FiniteMap.lookup_insert c other _ s.clients
      have rings : ∀ r, (s.rings.insert s.nextRing
          (SharedRing.create s.size)).lookup r =
          if r = s.nextRing then some (.create s.size)
          else s.rings.lookup r :=
        fun r => FiniteMap.lookup_insert _ r _ s.rings
      have before : ∀ {r ring}, s.rings.lookup r = some ring →
          (s.rings.insert s.nextRing (SharedRing.create s.size)).lookup r =
            some ring := by
        intro r ring found
        rw [rings, if_neg (Nat.ne_of_lt (agreed.ringKnown r ring found)), found]
      -- No client and no monitor has the new buffer yet.
      have unused : ∀ {other otherClient}, s.clients.lookup other =
          some otherClient → otherClient.ring ≠ some s.nextRing := by
        intro other otherClient found has
        obtain ⟨ring, mapped, _⟩ :=
          agreed.served other otherClient s.nextRing found has
        exact Nat.lt_irrefl _ (agreed.ringKnown _ ring mapped)
      have kept : ∀ {other otherClient r}, s.clients.lookup other =
          some otherClient → otherClient.ring = some r → other ≠ c := by
        rintro other otherClient r found has rfl
        cases known.symm.trans found
        rw [free] at has
        cases has
      refine
        { clientKnown := ?_, ringKnown := ?_, served := ?_, oneClient := ?_,
          unserved := ?_, silent := ?_, inLine := ?_, inLineOnce := later.2,
          monitored := ?_, oneMonitor := agreed.oneMonitor,
          oneDescriptor := agreed.oneDescriptor, read := ?_, waited := ?_ }
      · intro other otherClient found
        rw [clients] at found
        split at found
        · next same => exact same ▸ agreed.clientKnown c client known
        · exact agreed.clientKnown other otherClient found
      · intro r ring found
        rw [rings] at found
        change r < s.nextRing + 1
        split at found
        · omega
        · exact Nat.lt_succ_of_lt (agreed.ringKnown r ring found)
      · intro other otherClient r found has
        rw [clients] at found
        split at found
        · cases found
          cases has
          refine ⟨_, by rw [rings, if_pos rfl], rfl, fun later => ?_, quiet,
            [], .start s.size _, rfl⟩
          simp at later
        · obtain ⟨ring, mapped, serves⟩ :=
            agreed.served other otherClient r found has
          exact ⟨ring, before mapped, serves⟩
      · intro first firstClient second secondClient r found otherFound has
          otherHas
        rw [clients] at found otherFound
        split at found <;> split at otherFound
        · next same other => exact other.trans same.symm
        · cases found
          cases has
          exact absurd otherHas (unused otherFound)
        · cases otherFound
          cases otherHas
          exact absurd has (unused found)
        · exact agreed.oneClient first firstClient second secondClient r found
            otherFound has otherHas
      · intro other otherClient found
        rw [clients] at found
        split at found
        · cases found
          simp
        · exact agreed.unserved other otherClient found
      · intro other otherClient found absent
        rw [clients] at found
        split at found
        · cases found
          cases absent
        · exact agreed.silent other otherClient found absent
      · intro other member
        obtain ⟨waiting, found, absent⟩ :=
          agreed.inLine other (by rw [line]; exact List.mem_cons_of_mem _ member)
        have different : other ≠ c := by
          rintro rfl
          exact later.1 member
        exact ⟨waiting, by rw [clients, if_neg different, found], absent⟩
      · intro kind other monitor found
        obtain ⟨owner, old, ring, monitors⟩ :=
          agreed.monitored kind other monitor found
        exact ⟨owner, old, ring,
          { monitors with
            known := by
              rw [clients, if_neg (kept monitors.known monitors.shared)]
              exact monitors.known
            mapped := before monitors.mapped }⟩
      · intro r ring found
        rw [rings] at found
        split at found
        · next same => exact .inl ⟨fd, by rw [same]⟩
        · rcases agreed.read r ring found with waits | monitored
          · obtain ⟨_, waits⟩ := waits
            rw [phase] at waits
            cases waits
          · exact .inr monitored
      · intro other r waits
        cases waits
        refine ⟨⟨c, _, by rw [clients, if_pos rfl], rfl⟩, ?_, ?_, ?_⟩
        · intro ring found
          rw [rings, if_pos rfl] at found
          cases found
          rfl
        · intro kind
          cases kind with
          | unset => exact AList.notMem_empty _
          | gpu => exact taken.1
          | openmp => exact taken.2
        · intro kind other monitor found same
          obtain ⟨owner, old, ring, monitors⟩ :=
            agreed.monitored kind other monitor found
          exact unused monitors.known (same ▸ monitors.shared)

/-- The monitor of the buffer that was waited for is in its map. -/
theorem Agreed.emplace (agreed : s.Agreed) {fd : Int} {r c : Nat}
    {kind : RingbufMeasurementType} {client : RingbufClient} {ring : SharedRing}
    (waits : s.phase = .waiting fd r) (mapped : s.rings.lookup r = some ring)
    (known : s.clients.lookup c = some client) (shared : client.ring = some r)
    (connected : client.stage = .connected) (sameType : client.type = kind)
    (serves : Serves client ring)
    (sameClients : next.clients = s.clients)
    (sameNextClient : next.nextClient = s.nextClient)
    (sameBacklog : next.backlog = s.backlog) (sameRings : next.rings = s.rings)
    (sameNextRing : next.nextRing = s.nextRing) (polling : next.phase = .polling)
    (monitors : ∀ type other, (next.monitors type).lookup other =
      if type = kind ∧ other = fd then some ⟨r, ⟨ring.pid⟩, []⟩
      else (s.monitors type).lookup other) : next.Agreed := by
  obtain ⟨_, unread, fresh, free⟩ := agreed.waited fd r waits
  have vacant : ∀ type, (s.monitors type).lookup fd = none :=
    fun type => AList.lookup_eq_none.mpr (fresh type)
  refine
    { clientKnown := by rw [sameClients, sameNextClient]; exact agreed.clientKnown
      ringKnown := by rw [sameRings, sameNextRing]; exact agreed.ringKnown
      served := by rw [sameClients, sameRings]; exact agreed.served
      oneClient := by rw [sameClients]; exact agreed.oneClient
      unserved := by rw [sameClients]; exact agreed.unserved
      silent := by rw [sameClients]; exact agreed.silent
      inLine := by rw [sameClients, sameBacklog]; exact agreed.inLine
      inLineOnce := by rw [sameBacklog]; exact agreed.inLineOnce
      monitored := ?_, oneMonitor := ?_, oneDescriptor := ?_, read := ?_,
      waited := ?_ }
  · intro type other monitor found
    rw [monitors] at found
    split at found
    · next here =>
        cases found
        exact ⟨c, client, ring,
          { known := by rw [sameClients]; exact known
            mapped := by rw [sameRings]; exact mapped
            shared := shared
            connected := connected
            sameType := sameType.trans here.1.symm
            process := congrArg Process.mk (serves.pid (.inr connected))
            received := (unread ring mapped).symm }⟩
    · obtain ⟨owner, old, oldRing, holds⟩ :=
        agreed.monitored type other monitor found
      exact ⟨owner, old, oldRing,
        { holds with
          known := by rw [sameClients]; exact holds.known
          mapped := by rw [sameRings]; exact holds.mapped }⟩
  · intro type first monitor otherType second otherMonitor found otherFound same
    rw [monitors] at found otherFound
    split at found <;> split at otherFound
    · next here there =>
        exact ⟨there.1.trans here.1.symm, there.2.trans here.2.symm⟩
    · cases found
      exact absurd same (free otherType second otherMonitor otherFound)
    · cases otherFound
      exact absurd same.symm (free type first monitor found)
    · exact agreed.oneMonitor type first monitor otherType second otherMonitor
        found otherFound same
  · intro other inGpu inOpenmp
    obtain ⟨monitor, found⟩ := FiniteMap.mem_iff_lookup.mp inGpu
    obtain ⟨otherMonitor, otherFound⟩ := FiniteMap.mem_iff_lookup.mp inOpenmp
    change (next.monitors .gpu).lookup other = some monitor at found
    change (next.monitors .openmp).lookup other = some otherMonitor at otherFound
    rw [monitors] at found otherFound
    -- The descriptor was in neither map.
    have elsewhere : other ≠ fd := by
      rintro rfl
      rw [vacant] at found otherFound
      split at found
      · next here =>
          rw [if_neg (by rw [← here.1]; simp)] at otherFound
          cases otherFound
      · cases found
    rw [if_neg fun both => elsewhere both.2] at found otherFound
    exact agreed.oneDescriptor other
      (FiniteMap.mem_iff_lookup.mpr ⟨monitor, found⟩)
      (FiniteMap.mem_iff_lookup.mpr ⟨otherMonitor, otherFound⟩)
  · intro other otherRing found
    rw [sameRings] at found
    right
    by_cases here : other = r
    · exact ⟨kind, fd, _, by rw [monitors, if_pos ⟨rfl, rfl⟩], here.symm⟩
    · rcases agreed.read other otherRing found with waiting | monitored
      · obtain ⟨_, waiting⟩ := waiting
        cases waits.symm.trans waiting
        exact absurd rfl here
      · obtain ⟨type, descriptor, monitor, there, buffer⟩ := monitored
        refine ⟨type, descriptor, monitor, ?_, buffer⟩
        rw [monitors, if_neg, there]
        rintro ⟨_, rfl⟩
        rw [vacant] at there
        cases there
  · intro other otherRing waiting
    rw [polling] at waiting
    cases waiting

theorem Agreed.dispatch (agreed : s.Agreed) :
    ∃ next, s.dispatch = .ok next ∧ next.Agreed := by
  unfold SocketMonitor.dispatch
  split
  case h_2 => exact ⟨s, rfl, agreed⟩
  case h_1 fd r waits =>
    obtain ⟨⟨c, client, known, shared⟩, _, fresh, _⟩ := agreed.waited fd r waits
    obtain ⟨ring, mapped, serves⟩ := agreed.served c client r known shared
    simp only [mapped]
    by_cases unset : ring.type = 0
    · rw [if_pos unset]
      exact ⟨s, rfl, agreed⟩
    · rw [if_neg unset]
      have connected : client.stage = .connected := by
        by_contra early
        exact unset (serves.type.trans (if_neg early))
      have stored : ring.type = client.type.toUInt64 :=
        serves.type.trans (if_pos connected)
      cases kind : client.type with
      | unset =>
          rw [stored, kind] at unset
          exact absurd rfl unset
      | gpu =>
          rw [kind] at stored
          have vacant : fd ∉ s.gpuMonitors := fresh .gpu
          rw [if_pos stored]
          simp only [emplaceMonitor, if_neg vacant]
          refine ⟨_, rfl, agreed.emplace waits mapped known shared connected
            kind serves rfl rfl rfl rfl rfl rfl ?_⟩
          intro type other
          cases type with
          | gpu =>
              simp only [monitors, true_and]
              exact FiniteMap.lookup_insert fd other _ s.gpuMonitors
          | _ => simp [monitors]
      | openmp =>
          rw [kind] at stored
          have vacant : fd ∉ s.openmpMonitors := fresh .openmp
          have other : ring.type ≠ RingbufMeasurementType.gpu.toUInt64 := by
            rw [stored]
            decide
          rw [if_neg other, if_pos stored]
          simp only [emplaceMonitor, if_neg vacant]
          refine ⟨_, rfl, agreed.emplace waits mapped known shared connected
            kind serves rfl rfl rfl rfl rfl rfl ?_⟩
          intro type other
          cases type with
          | openmp =>
              simp only [monitors, true_and]
              exact FiniteMap.lookup_insert fd other _ s.openmpMonitors
          | _ => simp [monitors]

theorem Agreed.rephase (agreed : s.Agreed) {phase : SocketPhase}
    (before : ∀ fd r, s.phase ≠ .waiting fd r)
    (after : ∀ fd r, phase ≠ .waiting fd r) :
    Agreed { s with phase := phase } :=
  { agreed with
    monitored := by
      intro type fd monitor found
      obtain ⟨c, client, ring, monitors⟩ :=
        agreed.monitored type fd monitor found
      exact ⟨c, client, ring, { monitors with }⟩
    read := by
      intro r ring found
      rcases agreed.read r ring found with waits | monitored
      · obtain ⟨fd, waits⟩ := waits
        exact absurd waits (before fd r)
      · exact .inr monitored
    waited := fun fd r waits => absurd waits (after fd r) }

theorem Agreed.stopNext (agreed : s.Agreed)
    (before : ∀ fd r, s.phase ≠ .waiting fd r) (rest : List Int) :
    (s.stopNext rest).Agreed := by
  cases rest with
  | nil => exact agreed.rephase before fun _ _ same => by cases same
  | cons fd rest => exact agreed.rephase before fun _ _ same => by cases same

theorem Agreed.stop (agreed : s.Agreed) : s.stop.Agreed := by
  unfold SocketMonitor.stop
  split
  · next phase =>
      apply agreed.stopNext
      intro fd r waits
      rw [phase] at waits
      cases waits
  · exact agreed

theorem monitorOf_spec {fd : Int} {kind : RingbufMeasurementType}
    {monitor : RingbufMonitor} (found : s.monitorOf fd = some (kind, monitor)) :
    (s.monitors kind).lookup fd = some monitor ∧ kind ≠ .unset := by
  unfold monitorOf at found
  split at found
  · next gpu =>
      cases found
      exact ⟨gpu, by simp⟩
  · obtain ⟨other, openmp, same⟩ := Option.map_eq_some_iff.mp found
    cases same
    exact ⟨openmp, by simp⟩

theorem Agreed.join (agreed : s.Agreed) :
    ∃ next, s.join = .ok next ∧ next.Agreed := by
  unfold SocketMonitor.join
  split
  case h_2 => exact ⟨s, rfl, agreed⟩
  case h_1 fd rest phase =>
    have before : ∀ other r, s.phase ≠ .waiting other r := by
      intro other r waits
      rw [phase] at waits
      cases waits
    split
    · exact ⟨_, rfl, agreed.stopNext before rest⟩
    · next kind monitor found =>
        obtain ⟨there, _⟩ := monitorOf_spec found
        obtain ⟨c, client, ring, monitors⟩ :=
          agreed.monitored kind fd monitor there
        obtain ⟨same, mapped, serves⟩ :=
          agreed.served c client _ monitors.known monitors.shared
        obtain ⟨pending, framing, _⟩ := serves.queued
        simp only [mapped, framing.empty_eq]
        cases pending.isEmpty with
        | false => exact ⟨s, rfl, agreed⟩
        | true => exact ⟨_, rfl, agreed.stopNext before rest⟩

theorem lookup_setMonitor {kind : RingbufMeasurementType} (set : kind ≠ .unset)
    (fd : Int) (monitor : RingbufMonitor) (s : SocketMonitor)
    (type : RingbufMeasurementType) (other : Int) :
    ((s.setMonitor kind fd monitor).monitors type).lookup other =
      if type = kind ∧ other = fd then some monitor
      else (s.monitors type).lookup other := by
  cases kind with
  | unset => exact absurd rfl set
  | gpu =>
      cases type with
      | gpu =>
          simp only [setMonitor, monitors, true_and]
          exact FiniteMap.lookup_insert fd other monitor s.gpuMonitors
      | _ => simp [setMonitor, monitors]
  | openmp =>
      cases type with
      | openmp =>
          simp only [setMonitor, monitors, true_and]
          exact FiniteMap.lookup_insert fd other monitor s.openmpMonitors
      | _ => simp [setMonitor, monitors]

theorem setMonitor_rest (kind : RingbufMeasurementType) (fd : Int)
    (monitor : RingbufMonitor) (s : SocketMonitor) :
    (s.setMonitor kind fd monitor).clients = s.clients ∧
      (s.setMonitor kind fd monitor).nextClient = s.nextClient ∧
      (s.setMonitor kind fd monitor).backlog = s.backlog ∧
      (s.setMonitor kind fd monitor).rings = s.rings ∧
      (s.setMonitor kind fd monitor).nextRing = s.nextRing ∧
      (s.setMonitor kind fd monitor).phase = s.phase ∧
      (s.setMonitor kind fd monitor).size = s.size := by
  cases kind <;> exact ⟨rfl, rfl, rfl, rfl, rfl, rfl, rfl⟩

/-- A monitor that is being stopped has read, and nothing else has changed. -/
theorem Agreed.taken (agreed : s.Agreed) {fd : Int} {c : Nat}
    {kind : RingbufMeasurementType} {client : RingbufClient}
    {monitor monitor' : RingbufMonitor} {ring ring' : SharedRing}
    (there : (s.monitors kind).lookup fd = some monitor)
    (holds : s.Monitors kind monitor c client ring)
    (serves : Serves client ring') (sameRing : monitor'.ring = monitor.ring)
    (sameProcess : monitor'.process = monitor.process)
    (received : monitor'.received = ring'.session.popped)
    (sameClients : next.clients = s.clients)
    (sameNextClient : next.nextClient = s.nextClient)
    (sameBacklog : next.backlog = s.backlog)
    (sameNextRing : next.nextRing = s.nextRing) (samePhase : next.phase = s.phase)
    (rings : ∀ r, next.rings.lookup r =
      if r = monitor.ring then some ring' else s.rings.lookup r)
    (monitors : ∀ type other, (next.monitors type).lookup other =
      if type = kind ∧ other = fd then some monitor'
      else (s.monitors type).lookup other) : next.Agreed := by
  -- The keys of the maps, and the buffers of their monitors, stay the same.
  have kept : ∀ {type other}, (∃ found,
      (next.monitors type).lookup other = some found) ↔ ∃ found,
        (s.monitors type).lookup other = some found := by
    intro type other
    rw [monitors]
    split
    · next here =>
        exact ⟨fun _ => ⟨monitor, here.1 ▸ here.2 ▸ there⟩, fun _ => ⟨_, rfl⟩⟩
    · rfl
  have old : ∀ {type other found}, (next.monitors type).lookup other =
      some found → ∃ before, (s.monitors type).lookup other = some before ∧
        found.ring = before.ring := by
    intro type other found known
    rw [monitors] at known
    split at known
    · next here =>
        cases known
        exact ⟨monitor, here.1 ▸ here.2 ▸ there, sameRing⟩
    · exact ⟨found, known, rfl⟩
  refine
    { clientKnown := by rw [sameClients, sameNextClient]; exact agreed.clientKnown
      ringKnown := ?_, served := ?_
      oneClient := by rw [sameClients]; exact agreed.oneClient
      unserved := by rw [sameClients]; exact agreed.unserved
      silent := by rw [sameClients]; exact agreed.silent
      inLine := by rw [sameClients, sameBacklog]; exact agreed.inLine
      inLineOnce := by rw [sameBacklog]; exact agreed.inLineOnce
      monitored := ?_, oneMonitor := ?_, oneDescriptor := ?_, read := ?_,
      waited := ?_ }
  · intro r found known
    rw [rings] at known
    rw [sameNextRing]
    split at known
    · next same => exact same ▸ agreed.ringKnown _ ring holds.mapped
    · exact agreed.ringKnown r found known
  · intro other otherClient r found has
    rw [sameClients] at found
    simp only [rings]
    by_cases same : r = monitor.ring
    · have owner := agreed.oneClient c client other otherClient r holds.known
        found (same ▸ holds.shared) has
      subst owner
      cases holds.known.symm.trans found
      exact ⟨ring', if_pos same, serves⟩
    · obtain ⟨buffer, mapped, agrees⟩ :=
        agreed.served other otherClient r found has
      exact ⟨buffer, (if_neg same).trans mapped, agrees⟩
  · intro type other found known
    rw [monitors] at known
    split at known
    · next here =>
        cases known
        exact ⟨c, client, ring',
          { known := by rw [sameClients]; exact holds.known
            mapped := by rw [rings, if_pos sameRing]
            shared := by rw [sameRing]; exact holds.shared
            connected := holds.connected
            sameType := holds.sameType.trans here.1.symm
            process := sameProcess.trans holds.process
            received := received }⟩
    · next elsewhere =>
        obtain ⟨owner, otherClient, buffer, monitored⟩ :=
          agreed.monitored type other found known
        have apart : found.ring ≠ monitor.ring := by
          intro same
          exact elsewhere
            (agreed.oneMonitor kind fd monitor type other found there known same)
        exact ⟨owner, otherClient, buffer,
          { monitored with
            known := by rw [sameClients]; exact monitored.known
            mapped := by rw [rings, if_neg apart]; exact monitored.mapped }⟩
  · intro type first found otherType second otherFound known otherKnown same
    obtain ⟨before, beforeKnown, beforeRing⟩ := old known
    obtain ⟨after, afterKnown, afterRing⟩ := old otherKnown
    exact agreed.oneMonitor type first before otherType second after beforeKnown
      afterKnown (afterRing.symm.trans (same.trans beforeRing))
  · intro other inGpu inOpenmp
    apply agreed.oneDescriptor other
    · exact FiniteMap.mem_iff_lookup.mpr
        (kept.mp (FiniteMap.mem_iff_lookup.mp
          (show other ∈ next.monitors .gpu from inGpu)))
    · exact FiniteMap.mem_iff_lookup.mpr
        (kept.mp (FiniteMap.mem_iff_lookup.mp
          (show other ∈ next.monitors .openmp from inOpenmp)))
  · intro r found known
    have before : ∃ ring, s.rings.lookup r = some ring := by
      rw [rings] at known
      split at known
      · next same => exact ⟨ring, same ▸ holds.mapped⟩
      · exact ⟨found, known⟩
    obtain ⟨buffer, mapped⟩ := before
    rw [samePhase]
    refine (agreed.read r buffer mapped).imp_right ?_
    intro monitored
    obtain ⟨type, descriptor, reader, there', same⟩ := monitored
    obtain ⟨reader', there''⟩ := kept.mpr ⟨reader, there'⟩
    obtain ⟨reader'', again, sameBuffer⟩ := old there''
    cases there'.symm.trans again
    exact ⟨type, descriptor, reader', there'', sameBuffer.trans same⟩
  · intro descriptor r waits
    rw [samePhase] at waits
    obtain ⟨owner, unread, fresh, free⟩ := agreed.waited descriptor r waits
    refine ⟨by rw [sameClients]; exact owner, ?_, ?_, ?_⟩
    · intro buffer known
      rw [rings, if_neg fun same => free kind fd monitor there same.symm]
        at known
      exact unread buffer known
    · intro type member
      exact fresh type (FiniteMap.mem_iff_lookup.mpr
        (kept.mp (FiniteMap.mem_iff_lookup.mp member)))
    · intro type other found known same
      obtain ⟨before, beforeKnown, sameBuffer⟩ := old known
      exact free type other before beforeKnown (sameBuffer.symm.trans same)

theorem Agreed.readStep (agreed : s.Agreed) (op : RingbufStep) :
    ∃ next, s.read op = .ok next ∧ next.Agreed := by
  unfold SocketMonitor.read
  split
  case h_2 => exact ⟨s, rfl, agreed⟩
  case h_1 fd rest phase =>
    split
    · exact ⟨s, rfl, agreed⟩
    · next kind monitor found =>
        obtain ⟨there, set⟩ := monitorOf_spec found
        obtain ⟨c, client, ring, holds⟩ := agreed.monitored kind fd monitor there
        obtain ⟨same, mapped, serves⟩ :=
          agreed.served c client _ holds.known holds.shared
        cases mapped.symm.trans holds.mapped
        simp only [holds.mapped]
        cases writers : op.isWriters with
        | true => exact ⟨s, rfl, agreed⟩
        | false =>
            obtain ⟨session, stepped, served, popped⟩ := serves.read writers
            simp only [stepped, Bool.false_eq_true, if_false]
            let monitor' : RingbufMonitor := { monitor with
              received := monitor.received ++
                session.popped.drop ring.session.popped.length }
            let rings := s.rings.insert monitor.ring
              { ring with session := session }
            obtain ⟨clients, nextClient, backlog, sameRings, nextRing, phases, _⟩ :=
              setMonitor_rest kind fd monitor' { s with rings := rings }
            have received : monitor'.received = session.popped := by
              change monitor.received ++ _ = _
              rw [holds.received, popped]
            refine ⟨_, rfl, agreed.taken there holds served
              (show monitor'.ring = monitor.ring from rfl) rfl received
              clients nextClient backlog nextRing phases ?_
              (lookup_setMonitor set fd monitor' { s with rings := rings })⟩
            intro r
            rw [sameRings]
            exact FiniteMap.lookup_insert monitor.ring r _ s.rings

theorem Agreed.step (agreed : s.Agreed) {input : SocketStep}
    (allowed : s.Allowed input) :
    ∃ next, s.step input = .ok next ∧ next.Agreed := by
  cases input with
  | connect process type version =>
      exact ⟨_, rfl, agreed.connect process type version⟩
  | accept fd => exact agreed.accept allowed
  | receive client => exact ⟨_, rfl, agreed.receive client⟩
  | storePid client => exact ⟨_, rfl, agreed.storePid client⟩
  | storeType client => exact ⟨_, rfl, agreed.storeType client⟩
  | dispatch => exact agreed.dispatch
  | write client op => exact agreed.write allowed
  | exit client => exact ⟨_, rfl, agreed.exit client⟩
  | stop => exact ⟨_, rfl, agreed.stop⟩
  | read op => exact agreed.readStep op
  | join => exact agreed.join

/-- In every run the socket monitor fails nowhere.  Each of its monitors reads
the buffer of exactly one client, has the type and the process of that client,
and has received the first events that the client has sent, in order.  Each
client with a complete connection has exactly one monitor, unless its own is
the next one to be made. -/
theorem clients_servedApart (size : BufferSize) {inputs : List SocketStep}
    (allowed : AllowedRun step Allowed (start size) inputs) :
    ∃ s, run step (start size) inputs = .ok s ∧
      (∀ type fd monitor, (s.monitors type).lookup fd = some monitor →
        ∃ c client, (s.clients.lookup c = some client ∧
            client.ring = some monitor.ring ∧ client.stage = .connected ∧
            client.type = type ∧ monitor.process = client.process ∧
            monitor.received <+: client.sent) ∧
          ∀ other otherClient, s.clients.lookup other = some otherClient →
            otherClient.ring = some monitor.ring → other = c) ∧
      ∀ c client, s.clients.lookup c = some client →
        client.stage = .connected →
          ∃ r, client.ring = some r ∧ ((∃ fd, s.phase = .waiting fd r) ∨
            ∃ type fd monitor, ((s.monitors type).lookup fd = some monitor ∧
              monitor.ring = r) ∧
              ∀ otherType other otherMonitor,
                (s.monitors otherType).lookup other = some otherMonitor →
                otherMonitor.ring = r → otherType = type ∧ other = fd) := by
  obtain ⟨s, reached, agreed⟩ :=
    run_invariant (fun _ _ holds ok => holds.step ok) (Agreed.start size) allowed
  refine ⟨s, reached, ?_, ?_⟩
  · intro type fd monitor found
    obtain ⟨c, client, ring, holds⟩ := agreed.monitored type fd monitor found
    obtain ⟨same, mapped, serves⟩ :=
      agreed.served c client _ holds.known holds.shared
    cases mapped.symm.trans holds.mapped
    obtain ⟨pending, _, logs⟩ := serves.queued
    refine ⟨c, client, ⟨holds.known, holds.shared, holds.connected,
      holds.sameType, holds.process, pending, ?_⟩, ?_⟩
    · rw [holds.received, serves.sent, logs]
    · intro other otherClient known has
      exact agreed.oneClient c client other otherClient _ holds.known known
        holds.shared has
  · intro c client known connected
    cases shared : client.ring with
    | none =>
        rw [(agreed.unserved c client known).mp shared] at connected
        cases connected
    | some r =>
        obtain ⟨ring, mapped, _⟩ := agreed.served c client r known shared
        refine ⟨r, rfl, (agreed.read r ring mapped).imp_right ?_⟩
        intro monitored
        obtain ⟨type, fd, monitor, there, same⟩ := monitored
        refine ⟨type, fd, monitor, ⟨there, same⟩, ?_⟩
        intro otherType other otherMonitor otherThere otherSame
        exact agreed.oneMonitor type fd monitor otherType other otherMonitor
          there otherThere (otherSame.trans same.symm)

/-- A library for an accelerator and one for OpenMP connect; the second writes
an event, which its monitor reads when the measurement ends. -/
def twoLibraries : List SocketStep :=
  [.connect ⟨7⟩ .gpu 2, .connect ⟨8⟩ .openmp 2, .accept 5, .receive 0,
    .storePid 0, .storeType 0, .dispatch, .accept 6, .receive 1, .storePid 1,
    .storeType 1, .write 1 (.reserve ⟨24, 0, by decide, by decide⟩),
    .write 1 .commit, .dispatch, .stop, .join, .read .pop]

theorem clients_servedApart_twoLibraries :
    ∃ s, run step (start ⟨64, by decide, by decide, by decide⟩) twoLibraries =
        .ok s ∧
      (∀ type fd monitor, (s.monitors type).lookup fd = some monitor →
        ∃ c client, (s.clients.lookup c = some client ∧
            client.ring = some monitor.ring ∧ client.stage = .connected ∧
            client.type = type ∧ monitor.process = client.process ∧
            monitor.received <+: client.sent) ∧
          ∀ other otherClient, s.clients.lookup other = some otherClient →
            otherClient.ring = some monitor.ring → other = c) ∧
      ∀ c client, s.clients.lookup c = some client →
        client.stage = .connected →
          ∃ r, client.ring = some r ∧ ((∃ fd, s.phase = .waiting fd r) ∨
            ∃ type fd monitor, ((s.monitors type).lookup fd = some monitor ∧
              monitor.ring = r) ∧
              ∀ otherType other otherMonitor,
                (s.monitors otherType).lookup other = some otherMonitor →
                otherMonitor.ring = r → otherType = type ∧ other = fd) :=
  clients_servedApart _
    (show AllowedRun step Allowed _ twoLibraries by decide +kernel)

end SocketMonitor

end Lo2s
