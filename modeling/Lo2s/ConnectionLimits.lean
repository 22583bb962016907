import Lo2s.ConnectionSafety

/-!
# What one client can do to the others

The thread of the socket monitor waits for the header of one ring buffer at a
time, and for as long as it takes.  And as the monitors have no descriptor to
wait for but the one that stops them, what a client sends during the measurement
has to fit into its ring buffer at once.
-/

namespace Lo2s

open Foundation RingbufSession

namespace SocketMonitor

variable {s next : SocketMonitor}

/-- The type of a buffer is waited for, and nobody is left who could store it:
every client with this buffer has ended, or has stored a type already. -/
structure Stuck (fd : Int) (r : Nat) (s : SocketMonitor) : Prop where
  waits : s.phase = .waiting fd r
  unset : ∀ ring, s.rings.lookup r = some ring → ring.type = 0
  left : ∀ c client, s.clients.lookup c = some client →
    client.ring = some r → client.alive = false ∨ client.stage = .connected

/-- Nobody has been sent a buffer, and no monitor has been made or has read. -/
structure Idle (s next : SocketMonitor) : Prop where
  rings : next.nextRing = s.nextRing
  monitors : ∀ type, next.monitors type = s.monitors type
  served : ∀ c client r, next.clients.lookup c = some client →
    client.ring = some r → ∃ before, s.clients.lookup c = some before ∧
      before.ring = some r

theorem Idle.refl (s : SocketMonitor) : Idle s s :=
  ⟨rfl, fun _ => rfl, fun _ client _ known has => ⟨client, known, has⟩⟩

theorem Idle.trans {first second third : SocketMonitor}
    (here : Idle first second) (there : Idle second third) :
    Idle first third where
  rings := there.rings.trans here.rings
  monitors := fun type => (there.monitors type).trans (here.monitors type)
  served := by
    intro c client r known has
    obtain ⟨middle, middleKnown, middleHas⟩ :=
      there.served c client r known has
    exact here.served c middle r middleKnown middleHas

variable {fd : Int} {r : Nat}

theorem Stuck.change (stuck : Stuck fd r s) {c : Nat}
    {client client' : RingbufClient} (known : s.clients.lookup c = some client)
    (clients : next.clients = s.clients.insert c client')
    (sameRing : client'.ring = client.ring)
    (left : client'.ring = some r →
      client'.alive = false ∨ client'.stage = .connected)
    (rings : ∀ ring, next.rings.lookup r = some ring → ring.type = 0)
    (sameNextRing : next.nextRing = s.nextRing) (samePhase : next.phase = s.phase)
    (sameGpu : next.gpuMonitors = s.gpuMonitors)
    (sameOpenmp : next.openmpMonitors = s.openmpMonitors) :
    Stuck fd r next ∧ Idle s next := by
  have lookup : ∀ other, next.clients.lookup other =
      if other = c then some client' else s.clients.lookup other := by
    intro other
    rw [clients]
    exact FiniteMap.lookup_insert c other client' s.clients
  refine ⟨⟨samePhase.trans stuck.waits, rings, ?_⟩, sameNextRing, ?_, ?_⟩
  · intro other otherClient found has
    rw [lookup] at found
    split at found
    · cases found
      exact left has
    · exact stuck.left other otherClient found has
  · intro type
    cases type with
    | unset => rfl
    | gpu => exact sameGpu
    | openmp => exact sameOpenmp
  · intro other otherClient buffer found has
    rw [lookup] at found
    split at found
    · next same =>
        cases found
        exact ⟨client, same ▸ known, sameRing ▸ has⟩
    · exact ⟨otherClient, found, has⟩

/-- A living client that has not stored its type has another buffer. -/
theorem Stuck.elsewhere (stuck : Stuck fd r s) {stage : WriterStage}
    (early : stage ≠ .connected) {c buffer : Nat} {client : RingbufClient}
    {ring : SharedRing}
    (found : s.clientAt stage c = some (client, buffer, ring)) :
    client.ring ≠ some r := by
  obtain ⟨known, _, _, alive, at'⟩ := clientAt_spec found
  intro has
  rcases stuck.left c client known has with ended | connected
  · rw [alive] at ended
    cases ended
  · exact early (at'.symm.trans connected)

theorem Stuck.step (stuck : Stuck fd r s) {input : SocketStep}
    (stepped : s.step input = .ok next) : Stuck fd r next ∧ Idle s next := by
  have waits := stuck.waits
  cases input with
  | connect process type version =>
      cases stepped
      have lookup : ∀ other client r,
          (s.connect process type version).clients.lookup other = some client →
            client.ring = some r → s.clients.lookup other = some client := by
        intro other client buffer found has
        rw [connect, FiniteMap.lookup_insert] at found
        split at found
        · cases found
          cases has
        · exact found
      refine ⟨⟨waits, stuck.unset, ?_⟩, rfl, fun _ => rfl, ?_⟩
      · intro c client found has
        exact stuck.left c client (lookup c client r found has) has
      · intro c client buffer found has
        exact ⟨client, lookup c client buffer found has, has⟩
  | accept other =>
      simp only [SocketMonitor.step, accept, waits, Except.ok.injEq] at stepped
      exact stepped ▸ ⟨stuck, .refl s⟩
  | receive c =>
      cases stepped
      unfold receive
      split
      · exact ⟨stuck, .refl s⟩
      · next client buffer ring found =>
          have apart := stuck.elsewhere (by simp) found
          obtain ⟨known, _⟩ := clientAt_spec found
          by_cases version : ring.version ≠ client.version
          · simp only [if_pos version]
            exact stuck.change known rfl rfl (fun has => absurd has apart)
              stuck.unset rfl rfl rfl rfl
          · simp only [if_neg version]
            exact stuck.change known rfl rfl (fun has => absurd has apart)
              stuck.unset rfl rfl rfl rfl
  | storePid c =>
      cases stepped
      unfold storePid
      split
      · exact ⟨stuck, .refl s⟩
      · next client buffer ring found =>
          have apart := stuck.elsewhere (by simp) found
          obtain ⟨known, shared, _⟩ := clientAt_spec found
          refine stuck.change known rfl rfl (fun has => absurd has apart)
            ?_ rfl rfl rfl rfl
          intro old there
          rw [FiniteMap.lookup_insert, if_neg] at there
          · exact stuck.unset old there
          · rintro rfl
            exact apart shared
  | storeType c =>
      cases stepped
      unfold storeType
      split
      · exact ⟨stuck, .refl s⟩
      · next client buffer ring found =>
          have apart := stuck.elsewhere (by simp) found
          obtain ⟨known, shared, _⟩ := clientAt_spec found
          refine stuck.change known rfl rfl (fun has => absurd has apart)
            ?_ rfl rfl rfl rfl
          intro old there
          rw [FiniteMap.lookup_insert, if_neg] at there
          · exact stuck.unset old there
          · rintro rfl
            exact apart shared
  | dispatch =>
      simp only [SocketMonitor.step, dispatch, waits] at stepped
      split at stepped
      · cases stepped
        exact ⟨stuck, .refl s⟩
      · next ring found =>
          simp only [stuck.unset ring found, if_true, Except.ok.injEq] at stepped
          exact stepped ▸ ⟨stuck, .refl s⟩
  | write c op =>
      simp only [SocketMonitor.step, write] at stepped
      split at stepped
      · cases stepped
        exact ⟨stuck, .refl s⟩
      · next client buffer ring found =>
          obtain ⟨known, shared, mapped, _, stage⟩ := clientAt_spec found
          split at stepped
          · split at stepped
            · cases stepped
            · cases stepped
              refine stuck.change known rfl rfl (fun _ => .inr stage) ?_ rfl
                rfl rfl rfl
              intro old there
              rw [FiniteMap.lookup_insert] at there
              split at there
              · next same =>
                  cases there
                  exact stuck.unset ring (same ▸ mapped)
              · exact stuck.unset old there
          · cases stepped
            exact ⟨stuck, .refl s⟩
  | exit c =>
      cases stepped
      unfold exit
      split
      · exact ⟨stuck, .refl s⟩
      · next client known =>
          exact stuck.change known rfl rfl (fun _ => .inl rfl) stuck.unset rfl
            rfl rfl rfl
  | stop =>
      simp only [SocketMonitor.step, stop, waits, Except.ok.injEq] at stepped
      exact stepped ▸ ⟨stuck, .refl s⟩
  | read op =>
      simp only [SocketMonitor.step, read, waits, Except.ok.injEq] at stepped
      exact stepped ▸ ⟨stuck, .refl s⟩
  | join =>
      simp only [SocketMonitor.step, join, waits, Except.ok.injEq] at stepped
      exact stepped ▸ ⟨stuck, .refl s⟩

/-- Once nobody is left who could store the type that is waited for, the
monitor of the socket waits for ever: no further client is sent a ring buffer,
and the monitors are never stopped and read nothing. -/
theorem stuck_forever (stuck : Stuck fd r s) {inputs : List SocketStep}
    {final : SocketMonitor} (ran : run step s inputs = .ok final) :
    final.phase = .waiting fd r ∧ Idle s final := by
  have holds := invariant_of_run
    (fun _ state => Stuck fd r state ∧ Idle s state) ⟨stuck, .refl s⟩
    (by
      intro _ state input after both stepped
      obtain ⟨still, idle⟩ := both.1.step stepped
      exact ⟨still, both.2.trans idle⟩)
    ran
  exact ⟨holds.1.waits, holds.2⟩

/-- A library of another version is sent a buffer and throws; the library that
connects next waits in vain, and so does the signal to stop. -/
theorem stuck_forever_oldLibrary :
    ∃ s, run step (start ⟨64, by decide, by decide, by decide⟩)
        [.connect ⟨7⟩ .gpu 1, .accept 5, .receive 0] = .ok s ∧
      ∀ inputs final, run step s (.connect ⟨8⟩ .openmp 2 :: .stop :: inputs) =
        .ok final → final.phase = .waiting 5 0 := by
  refine ⟨_, rfl, ?_⟩
  intro inputs final ran
  refine (stuck_forever ⟨rfl, ?_, ?_⟩ ran).1
  · intro ring found
    cases found
    rfl
  · intro c client found has
    cases c with
    | zero =>
        cases found
        exact .inl rfl
    | succ c => cases found

/-- The thread has not been told to stop. -/
def Measuring (s : SocketMonitor) : Prop :=
  s.phase = .polling ∨ ∃ fd r, s.phase = .waiting fd r

/-- What a step can do to the ring buffers and to the monitors. -/
structure Effect (s next : SocketMonitor) : Prop where
  size : next.size = s.size
  rings : ∀ r ring', next.rings.lookup r = some ring' →
    ring' = .create s.size ∨ ∃ ring, s.rings.lookup r = some ring ∧
      ring'.session.rb.header.size = ring.session.rb.header.size
  measuring : next.Measuring → s.Measuring ∧ ∀ type fd monitor,
    (next.monitors type).lookup fd = some monitor →
      monitor.received = [] ∨ (s.monitors type).lookup fd = some monitor

theorem Effect.refl (s : SocketMonitor) : Effect s s :=
  ⟨rfl, fun _ ring found => .inr ⟨ring, found, rfl⟩,
    fun measuring => ⟨measuring, fun _ _ _ found => .inr found⟩⟩

theorem Effect.ofClients {clients : FiniteMap Nat RingbufClient}
    {rings : FiniteMap Nat SharedRing} (nextClient : Nat) (backlog : List Nat)
    (kept : ∀ r ring', rings.lookup r = some ring' →
      ∃ ring, s.rings.lookup r = some ring ∧
        ring'.session.rb.header.size = ring.session.rb.header.size) :
    Effect s { s with
      clients := clients, nextClient := nextClient, backlog := backlog
      rings := rings } :=
  ⟨rfl, fun r ring' found => .inr (kept r ring' found),
    fun measuring => ⟨measuring, fun _ _ _ found => .inr found⟩⟩

theorem kept_insert {buffer : Nat} {ring ring' : SharedRing}
    (mapped : s.rings.lookup buffer = some ring)
    (sameSize : ring'.session.rb.header.size = ring.session.rb.header.size)
    (other : Nat) (found : SharedRing)
    (there : (s.rings.insert buffer ring').lookup other = some found) :
    ∃ ring, s.rings.lookup other = some ring ∧
      found.session.rb.header.size = ring.session.rb.header.size := by
  rw [FiniteMap.lookup_insert] at there
  split at there
  · next same =>
      cases there
      exact ⟨ring, same ▸ mapped, sameSize⟩
  · exact ⟨found, there, rfl⟩

theorem Effect.ofPhase (phase : SocketPhase) (stopped : phase ≠ .polling)
    (noWait : ∀ fd r, phase ≠ .waiting fd r) :
    Effect s { s with phase := phase } := by
  refine ⟨rfl, fun _ ring found => .inr ⟨ring, found, rfl⟩, ?_⟩
  intro measuring
  rcases measuring with polling | ⟨fd, r, waits⟩
  · exact absurd polling stopped
  · exact absurd waits (noWait fd r)

theorem Effect.stopNext (rest : List Int) : Effect s (s.stopNext rest) := by
  cases rest with
  | nil => exact .ofPhase .finished (by simp) (by simp)
  | cons fd rest => exact .ofPhase (.stopping fd rest) (by simp) (by simp)

end SocketMonitor

theorem RingbufSession.step_size {before after : RingbufSession}
    {op : RingbufStep} (stepped : before.step op = .ok after) :
    after.rb.header.size = before.rb.header.size := by
  have stored : ∀ {rb rb' : ShmRingbuf} {pos : Nat} {cells : List UInt8},
      rb.store pos cells = .ok rb' → rb'.header = rb.header := by
    intro rb rb' pos cells written
    unfold ShmRingbuf.store at written
    split at written <;> cases written
    rfl
  have cleared : ∀ {rb rb' : ShmRingbuf} {pos len : Nat},
      rb.memset pos len = .ok rb' → rb'.header = rb.header := by
    intro rb rb' pos len written
    unfold ShmRingbuf.memset at written
    split at written
    · exact stored written
    · cases written
  have advanced : ∀ {rb rb' : ShmRingbuf} {evSize : UInt64},
      rb.advanceTail evSize = .ok rb' → rb'.header.size = rb.header.size := by
    intro rb rb' evSize popped
    simp only [ShmRingbuf.advanceTail] at popped
    split at popped
    · cases popped
    · cases popped
    · split at popped <;> cases popped
      rfl
  cases op with
  | reserve request =>
      simp only [RingbufSession.step, RingbufSession.reserve] at stepped
      split at stepped
      · cases stepped
      · split at stepped
        · cases stepped
        · cases stepped
          rfl
        · split at stepped
          · cases stepped
          · next first =>
              split at stepped
              · cases stepped
              · next second =>
                  cases stepped
                  exact congrArg RingbufHeader.size
                    ((stored second).trans (cleared first))
  | fill offset byte =>
      simp only [RingbufSession.step, RingbufSession.fill] at stepped
      split at stepped
      · cases stepped
      · next written =>
          cases stepped
          exact congrArg RingbufHeader.size (stored written)
  | commit =>
      simp only [RingbufSession.step, RingbufSession.commit] at stepped
      split at stepped <;> cases stepped
      rfl
  | empty =>
      simp only [RingbufSession.step] at stepped
      split at stepped <;> cases stepped
      rfl
  | get =>
      simp only [RingbufSession.step] at stepped
      split at stepped <;> cases stepped
      rfl
  | pop =>
      simp only [RingbufSession.step, RingbufSession.pop] at stepped
      split at stepped
      · cases stepped
      · cases stepped
        rfl
      · split at stepped
        · cases stepped
        · split at stepped
          · cases stepped
          · next popped =>
              cases stepped
              exact advanced popped

namespace SocketMonitor

variable {s next : SocketMonitor}

theorem Effect.emplaced {fd : Int} {r : Nat}
    (kind : RingbufMeasurementType) (monitor : RingbufMonitor)
    (waits : s.phase = .waiting fd r) (unread : monitor.received = [])
    (sameSize : next.size = s.size) (sameRings : next.rings = s.rings)
    (monitors : ∀ type other, (next.monitors type).lookup other =
      if type = kind ∧ other = fd then some monitor
      else (s.monitors type).lookup other) : Effect s next := by
  refine ⟨sameSize, ?_, ?_⟩
  · intro other ring found
    rw [sameRings] at found
    exact .inr ⟨ring, found, rfl⟩
  · intro _
    refine ⟨.inr ⟨fd, r, waits⟩, ?_⟩
    intro type other found there
    rw [monitors] at there
    split at there
    · cases there
      exact .inl unread
    · exact .inr there

theorem emplaceMonitor_lookup {fd : Int} {monitor : RingbufMonitor}
    {before after : FiniteMap Int RingbufMonitor}
    (emplaced : emplaceMonitor fd monitor before = .ok after) (other : Int) :
    after.lookup other = if other = fd then some monitor
      else before.lookup other := by
  unfold emplaceMonitor at emplaced
  split at emplaced <;> cases emplaced
  exact FiniteMap.lookup_insert fd other monitor before

theorem dispatch_effect (stepped : s.dispatch = .ok next) : Effect s next := by
  unfold dispatch at stepped
  split at stepped
  case h_2 =>
    cases stepped
    exact .refl s
  case h_1 fd r waits =>
    split at stepped
    · cases stepped
      exact .refl s
    · next ring mapped =>
        let monitor : RingbufMonitor := ⟨r, ⟨ring.pid⟩, []⟩
        by_cases unset : ring.type = 0
        · rw [if_pos unset] at stepped
          cases stepped
          exact .refl s
        · rw [if_neg unset] at stepped
          split at stepped
          · cases emplaced : emplaceMonitor fd monitor s.gpuMonitors with
            | error failure =>
                rw [emplaced] at stepped
                cases stepped
            | ok monitors =>
                rw [emplaced] at stepped
                cases stepped
                refine .emplaced .gpu monitor waits rfl rfl rfl
                  (fun type other => ?_)
                cases type with
                | gpu =>
                    simp only [SocketMonitor.monitors, true_and]
                    exact emplaceMonitor_lookup emplaced other
                | _ => simp [SocketMonitor.monitors]
          · split at stepped
            · cases emplaced : emplaceMonitor fd monitor s.openmpMonitors with
              | error failure =>
                  rw [emplaced] at stepped
                  cases stepped
              | ok monitors =>
                  rw [emplaced] at stepped
                  cases stepped
                  refine .emplaced .openmp monitor waits rfl rfl rfl
                    (fun type other => ?_)
                  cases type with
                  | openmp =>
                      simp only [SocketMonitor.monitors, true_and]
                      exact emplaceMonitor_lookup emplaced other
                  | _ => simp [SocketMonitor.monitors]
            · cases stepped

theorem read_effect {op : RingbufStep} (stepped : s.read op = .ok next) :
    Effect s next := by
  unfold read at stepped
  split at stepped
  case h_2 =>
    cases stepped
    exact .refl s
  case h_1 fd rest phase =>
    split at stepped
    · cases stepped
      exact .refl s
    · next kind monitor found =>
        split at stepped
        · cases stepped
          exact .refl s
        · next ring mapped =>
            split at stepped
            · cases stepped
              exact .refl s
            · split at stepped
              · cases stepped
              · next session taken =>
                  let rings := s.rings.insert monitor.ring
                    { ring with session := session }
                  let monitor' : RingbufMonitor := { monitor with
                    received := monitor.received ++
                      session.popped.drop ring.session.popped.length }
                  obtain ⟨_, _, _, sameRings, _, samePhase, sameSize⟩ :=
                    setMonitor_rest kind fd monitor' { s with rings := rings }
                  cases stepped
                  refine ⟨sameSize, ?_, ?_⟩
                  · intro r buffer there
                    rw [sameRings] at there
                    exact .inr (kept_insert mapped
                      (RingbufSession.step_size taken) r buffer there)
                  · intro measuring
                    rw [Measuring, samePhase] at measuring
                    simp [phase] at measuring

theorem step_effect {input : SocketStep} (stepped : s.step input = .ok next) :
    Effect s next := by
  cases input with
  | connect process type version =>
      cases stepped
      exact .ofClients _ _ fun _ ring found => ⟨ring, found, rfl⟩
  | accept fd =>
      simp only [step, accept] at stepped
      split at stepped
      · next phase line =>
          split at stepped
          · cases stepped
            exact .refl s
          · split at stepped
            · cases stepped
              exact .refl s
            · split at stepped <;> cases stepped
              refine ⟨rfl, ?_, fun _ => ⟨.inl phase, fun _ _ _ => .inr⟩⟩
              intro r ring found
              rw [FiniteMap.lookup_insert] at found
              split at found
              · cases found
                exact .inl rfl
              · exact .inr ⟨ring, found, rfl⟩
      · cases stepped
        exact .refl s
  | receive c =>
      cases stepped
      unfold receive
      split
      · exact .refl s
      · exact .ofClients _ _ fun _ ring found => ⟨ring, found, rfl⟩
  | storePid c =>
      cases stepped
      unfold storePid
      split
      · exact .refl s
      · next client r ring found =>
          exact .ofClients _ _ (kept_insert (clientAt_spec found).2.2.1 rfl)
  | storeType c =>
      cases stepped
      unfold storeType
      split
      · exact .refl s
      · next client r ring found =>
          exact .ofClients _ _ (kept_insert (clientAt_spec found).2.2.1 rfl)
  | dispatch => exact dispatch_effect stepped
  | write c op =>
      simp only [step, write] at stepped
      split at stepped
      · cases stepped
        exact .refl s
      · next client r ring found =>
          split at stepped
          · split at stepped
            · cases stepped
            · next written =>
                cases stepped
                exact .ofClients _ _ (kept_insert (clientAt_spec found).2.2.1
                  (RingbufSession.step_size written))
          · cases stepped
            exact .refl s
  | exit c =>
      cases stepped
      unfold exit
      split
      · exact .refl s
      · exact .ofClients _ _ fun _ ring found => ⟨ring, found, rfl⟩
  | stop =>
      cases stepped
      unfold stop
      split
      · exact .stopNext _
      · exact .refl s
  | read op => exact read_effect stepped
  | join =>
      simp only [step, join] at stepped
      split at stepped
      · split at stepped
        · cases stepped
          exact .stopNext _
        · split at stepped
          · cases stepped
            exact .stopNext _
          · split at stepped
            · cases stepped
            · cases stepped
              exact .refl s
            · cases stepped
              exact .stopNext _
      · cases stepped
        exact .refl s

/-- All ring buffers are of one size, and while the measurement runs no monitor
has read from one. -/
structure Unread (size : BufferSize) (s : SocketMonitor) : Prop where
  sameSize : s.size = size
  sizes : ∀ r ring, s.rings.lookup r = some ring →
    ring.session.rb.header.size = size.size
  unread : s.Measuring → ∀ type fd monitor,
    (s.monitors type).lookup fd = some monitor → monitor.received = []

theorem Unread.start (size : BufferSize) : (start size).Unread size where
  sameSize := rfl
  sizes := fun _ _ found => by cases found
  unread := fun _ type _ _ found => by cases type <;> cases found

theorem Unread.step {size : BufferSize} (unread : s.Unread size)
    {input : SocketStep} (stepped : s.step input = .ok next) :
    next.Unread size := by
  have effect := step_effect stepped
  refine ⟨effect.size.trans unread.sameSize, ?_, ?_⟩
  · intro r ring found
    rcases effect.rings r ring found with new | ⟨old, known, same⟩
    · rw [new, unread.sameSize]
      rfl
    · exact same.trans (unread.sizes r old known)
  · intro running type fd monitor found
    obtain ⟨before, monitors⟩ := effect.measuring running
    rcases monitors type fd monitor found with new | old
    · exact new
    · exact unread.unread before type fd monitor old

/-- As long as the measurement runs, no monitor has read anything, and all that
a client has sent takes up less than its ring buffer. -/
theorem sent_fits (size : BufferSize) {inputs : List SocketStep}
    (allowed : AllowedRun step Allowed (start size) inputs) :
    ∃ s, run step (start size) inputs = .ok s ∧
      (s.Measuring →
        (∀ type fd monitor, (s.monitors type).lookup fd = some monitor →
          monitor.received = []) ∧
        ∀ c client, s.clients.lookup c = some client →
          ShmRingbuf.used client.sent < size.size.toNat) := by
  obtain ⟨s, reached, agreed⟩ :=
    run_invariant (fun _ _ holds ok => holds.step ok) (Agreed.start size) allowed
  refine ⟨s, reached, fun measuring => ?_⟩
  obtain ⟨_, sizes, unread⟩ := invariant_of_run (fun _ => Unread size)
    (Unread.start size) (fun _ _ _ _ holds stepped => holds.step stepped) reached
  refine ⟨unread measuring, ?_⟩
  intro c client known
  have positive : 0 < size.size.toNat :=
    UInt64.lt_iff_toNat_lt.mp size.positive
  cases shared : client.ring with
  | none =>
      rw [agreed.silent c client known shared]
      exact positive
  | some r =>
      obtain ⟨ring, mapped, serves⟩ := agreed.served c client r known shared
      obtain ⟨pending, framing, logs⟩ := serves.queued
      have nothing : ring.session.popped = [] := by
        rcases agreed.read r ring mapped with ⟨fd, waits⟩ | monitored
        · exact (agreed.waited fd r waits).2.1 ring mapped
        · obtain ⟨type, fd, monitor, there, same⟩ := monitored
          obtain ⟨owner, other, buffer, holds⟩ :=
            agreed.monitored type fd monitor there
          cases mapped.symm.trans (same ▸ holds.mapped)
          rw [← holds.received]
          exact unread measuring type fd monitor there
      rw [serves.sent, logs, nothing, List.nil_append, ← sizes r ring mapped]
      exact framing.notFull

/-- Two events of 24 bytes fit into a buffer of 64; the third is refused. -/
theorem sent_fits_twoEvents :
    ∃ s, run step (start ⟨64, by decide, by decide, by decide⟩)
        ([.connect ⟨7⟩ .gpu 2, .accept 5, .receive 0, .storePid 0,
          .storeType 0, .dispatch] ++
          (List.replicate 3
            [.write 0 (.reserve ⟨16, 8, by decide, by decide⟩),
              .write 0 .commit]).flatten) = .ok s ∧
      (s.Measuring → ∀ c client, s.clients.lookup c = some client →
        ShmRingbuf.used client.sent < 64) :=
  let ⟨s, reached, fits⟩ := sent_fits ⟨64, by decide, by decide, by decide⟩
    (show AllowedRun step Allowed _
      ([.connect ⟨7⟩ .gpu 2, .accept 5, .receive 0, .storePid 0,
        .storeType 0, .dispatch] ++
        (List.replicate 3
          [.write 0 (.reserve ⟨16, 8, by decide, by decide⟩),
            .write 0 .commit]).flatten) by decide +kernel)
  ⟨s, reached, fun measuring => (fits measuring).2⟩

end SocketMonitor

end Lo2s
