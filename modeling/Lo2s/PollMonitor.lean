import Lo2s.Types
import Mathlib.Data.List.Basic

/-!
# The loop of a poll monitor

`PollMonitor::run` polls its descriptors, the first of which asks it to stop.
After each `poll` it looks for flags other than `POLLIN`: one of them ends the
loop at once, with a warning.  Otherwise all descriptors with `POLLIN` are
passed to the virtual `monitor(fd)`, and only then the stop is obeyed.
-/

namespace Lo2s

/-- `struct pollfd`, as `poll` leaves it; `events` is always `POLLIN`. -/
structure Pollfd where
  fd : Int32
  revents : UInt16
  deriving DecidableEq

namespace Pollfd

def pollin : UInt16 := 1

/-- `revents & POLLIN`. -/
def signalled (pfd : Pollfd) : Bool := pfd.revents &&& pollin ≠ 0

/-- `revents != 0 && revents != POLLIN`. -/
def unexpected (pfd : Pollfd) : Bool :=
  pfd.revents ≠ 0 && pfd.revents ≠ pollin

end Pollfd

/-- What a call of `poll` comes back with: 0, a negative value with the text of
`errno`, or flags for the descriptors by their position. -/
inductive PollResult where
  | timeout
  | failed (error : String)
  | ready (revents : Nat → UInt16)

/-- A result of `poll`: the descriptors with their flags, and those passed to
`monitor(fd)`. -/
structure Wakeup where
  pfds : List Pollfd
  monitored : List Int32
  deriving DecidableEq

/-- How the loop has ended, if it has. -/
inductive PollOutcome where
  | polling
  | stopped
  | panicked
  | threw (failure : Failure)

/-- `PollMonitor`, without the thread; `σ` is the state of the derived class. -/
structure PollMonitor (σ : Type u) where
  stopPfd : Pollfd
  others : List Pollfd
  client : σ

namespace PollMonitor

variable {σ : Type u}

/-- The constructor and one `add_fd` for each further descriptor. -/
def start (stopFd : Int32) (fds : List Int32) (client : σ) : PollMonitor σ :=
  { stopPfd := ⟨stopFd, 0⟩
    others := fds.map fun fd => ⟨fd, 0⟩
    client := client }

def pfds (s : PollMonitor σ) : List Pollfd := s.stopPfd :: s.others

/-- `poll` overwrites the flags of every descriptor. -/
def poll (revents : Nat → UInt16) (s : PollMonitor σ) : PollMonitor σ :=
  { s with
    stopPfd := ⟨s.stopPfd.fd, revents 0⟩
    others := s.others.mapIdx fun i pfd => ⟨pfd.fd, revents (i + 1)⟩ }

section

variable (handle : Int32 → σ → Except Failure σ)

/-- `monitor()`: the descriptors passed to `monitor(fd)`, which may throw. -/
def monitor : List Pollfd → σ → List Int32 × Except Failure σ
  | [], client => ([], .ok client)
  | pfd :: pfds, client =>
      if pfd.signalled then
        match handle pfd.fd client with
        | .error failure => ([pfd.fd], .error failure)
        | .ok client =>
            let r := monitor pfds client
            (pfd.fd :: r.1, r.2)
      else monitor pfds client

/-- `run`, on the results of the calls of `poll`. -/
def run : List PollResult → PollMonitor σ → List Wakeup × PollOutcome
  | [], _ => ([], .polling)
  | .timeout :: _, _ => ([], .threw (.runtimeError
      "Received poll timeout despite requesting no timeout."))
  | .failed error :: _, _ => ([], .threw (.runtimeError error))
  | .ready revents :: results, s =>
      let s := s.poll revents
      if s.pfds.any Pollfd.unexpected then ([⟨s.pfds, []⟩], .panicked)
      else
        let r := monitor handle s.pfds s.client
        match r.2 with
        | .error failure => ([⟨s.pfds, r.1⟩], .threw failure)
        | .ok client =>
            if s.stopPfd.signalled then ([⟨s.pfds, r.1⟩], .stopped)
            else
              let next := run results { s with client := client }
              (⟨s.pfds, r.1⟩ :: next.1, next.2)

end

end PollMonitor

namespace Wakeup

/-- The descriptors reported with `POLLIN`, in order. -/
def signalledFds (wakeup : Wakeup) : List Int32 :=
  (wakeup.pfds.filter Pollfd.signalled).map (·.fd)

def Unexpected (wakeup : Wakeup) : Prop :=
  wakeup.pfds.any Pollfd.unexpected

/-- No signalled descriptor is skipped. -/
def NoneSkipped (wakeup : Wakeup) : Prop :=
  ∀ pfd ∈ wakeup.pfds, pfd.signalled → pfd.fd ∈ wakeup.monitored

theorem mem_signalledFds {wakeup : Wakeup} {fd : Int32} :
    fd ∈ wakeup.signalledFds ↔
      ∃ pfd ∈ wakeup.pfds, pfd.signalled ∧ pfd.fd = fd := by
  simp only [signalledFds, List.mem_map, List.mem_filter, and_assoc]

theorem noneSkipped_of_all {wakeup : Wakeup}
    (all : wakeup.monitored = wakeup.signalledFds) : wakeup.NoneSkipped := by
  intro pfd member signalled
  rw [all]
  exact mem_signalledFds.mpr ⟨pfd, member, signalled, rfl⟩

theorem noneSkipped_iff_of_none {wakeup : Wakeup}
    (none : wakeup.monitored = []) :
    wakeup.NoneSkipped ↔ wakeup.signalledFds = [] := by
  rw [List.eq_nil_iff_forall_not_mem, NoneSkipped, none]
  constructor
  · intro skipped fd member
    obtain ⟨pfd, inPfds, signalled, _⟩ := mem_signalledFds.mp member
    exact List.not_mem_nil (skipped pfd inPfds signalled)
  · intro absent pfd member signalled
    exact absurd (mem_signalledFds.mpr ⟨pfd, member, signalled, rfl⟩)
      (absent pfd.fd)

end Wakeup

namespace PollMonitor

variable {σ : Type u} {handle : Int32 → σ → Except Failure σ}

/-- Without an exception, the descriptors with `POLLIN` are all passed on. -/
theorem monitor_ok {pfds : List Pollfd} {client next : σ}
    (finished : (monitor handle pfds client).2 = .ok next) :
    (monitor handle pfds client).1 =
      (pfds.filter Pollfd.signalled).map (·.fd) := by
  induction pfds generalizing client with
  | nil => rfl
  | cons pfd pfds induction =>
      rw [monitor] at finished ⊢
      by_cases signalled : pfd.signalled = true
      · rw [if_pos signalled] at finished ⊢
        rw [List.filter_cons_of_pos signalled, List.map_cons]
        cases handled : handle pfd.fd client with
        | error failure =>
            rw [handled] at finished
            cases finished
        | ok client =>
            simp only [handled] at finished ⊢
            rw [induction finished]
      · rw [if_neg signalled] at finished ⊢
        rw [List.filter_cons_of_neg signalled]
        exact induction finished

theorem pfds_poll_poll (first second : Nat → UInt16) (s : PollMonitor σ)
    (client : σ) :
    (poll second { s.poll first with client := client }).pfds =
      (s.poll second).pfds := by
  simp [poll, pfds, List.mapIdx_mapIdx, Function.comp_def]

theorem run_ready_cases {revents : Nat → UInt16} {results : List PollResult}
    {s : PollMonitor σ} {wakeups : List Wakeup} {outcome : PollOutcome}
    (ran : run handle (.ready revents :: results) s = (wakeups, outcome)) :
    ∃ wakeup later, wakeups = wakeup :: later ∧
      wakeup.pfds = (s.poll revents).pfds ∧
      (wakeup.Unexpected ∧ wakeup.monitored = [] ∧ later = [] ∧
          outcome = .panicked ∨
        ¬ wakeup.Unexpected ∧ later = [] ∧ (∃ failure, outcome = .threw failure) ∨
        ¬ wakeup.Unexpected ∧ wakeup.monitored = wakeup.signalledFds ∧
          (later = [] ∧ outcome = .stopped ∧
              (s.poll revents).stopPfd.signalled ∨
            ∃ client, run handle results
              { s.poll revents with client := client } = (later, outcome))) := by
  rw [run] at ran
  split at ran
  · cases ran
    exact ⟨_, _, rfl, rfl, .inl ⟨‹_›, rfl, rfl, rfl⟩⟩
  · rename_i expected
    cases finished : (monitor handle (s.poll revents).pfds
        (s.poll revents).client).2 with
    | error failure =>
        simp only [finished] at ran
        cases ran
        exact ⟨_, _, rfl, rfl, .inr (.inl ⟨expected, rfl, _, rfl⟩)⟩
    | ok client =>
        have all := monitor_ok finished
        simp only [finished] at ran
        split at ran
        · cases ran
          exact ⟨_, _, rfl, rfl,
            .inr (.inr ⟨expected, all, .inl ⟨rfl, rfl, ‹_›⟩⟩)⟩
        · cases ran
          exact ⟨_, _, rfl, rfl, .inr (.inr ⟨expected, all, .inr ⟨_, rfl⟩⟩)⟩

/-- A result ends the run, or the run goes on with the next one. -/
theorem run_ready_goes_on {revents : Nat → UInt16} {results : List PollResult}
    {s : PollMonitor σ} {wakeups : List Wakeup} {outcome : PollOutcome}
    (ran : run handle (.ready revents :: results) s = (wakeups, outcome)) :
    ∃ wakeup later, wakeups = wakeup :: later ∧
      wakeup.pfds = (s.poll revents).pfds ∧
      (later = [] ∧ outcome ≠ .polling ∨
        ∃ client, run handle results
          { s.poll revents with client := client } = (later, outcome)) := by
  obtain ⟨wakeup, later, split, polled, ways⟩ := run_ready_cases ran
  refine ⟨wakeup, later, split, polled, ?_⟩
  rcases ways with ⟨_, _, none, rfl⟩ | ⟨_, none, _, rfl⟩ |
    ⟨_, _, ⟨none, rfl, _⟩ | continued⟩
  · exact .inl ⟨none, fun polling => by cases polling⟩
  · exact .inl ⟨none, fun polling => by cases polling⟩
  · exact .inl ⟨none, fun polling => by cases polling⟩
  · exact .inr continued

/-- The wakeups of a run are results of `poll`, in order, and the run goes on
as long as there are results. -/
theorem run_results {results : List PollResult} {s : PollMonitor σ}
    {wakeups : List Wakeup} {outcome : PollOutcome}
    (ran : run handle results s = (wakeups, outcome)) :
    (∀ (k : Nat) (wakeup : Wakeup), wakeups[k]? = some wakeup →
      ∃ revents, results[k]? = some (.ready revents) ∧
        wakeup.pfds = (s.poll revents).pfds) ∧
    (outcome = .polling → wakeups.length = results.length) := by
  induction results generalizing s wakeups with
  | nil =>
      cases ran
      exact ⟨fun _ _ absent => (by cases absent), fun _ => rfl⟩
  | cons result results induction =>
      cases result with
      | timeout =>
          cases ran
          exact ⟨fun _ _ absent => (by cases absent),
            fun polling => (by cases polling)⟩
      | failed error =>
          cases ran
          exact ⟨fun _ _ absent => (by cases absent),
            fun polling => (by cases polling)⟩
      | ready revents =>
          obtain ⟨first, later, rfl, polled, ⟨rfl, ended⟩ | ⟨client, continued⟩⟩ :=
            run_ready_goes_on ran
          · refine ⟨fun k wakeup known => ?_, fun polling => absurd polling ended⟩
            cases k with
            | zero =>
                cases known
                exact ⟨revents, rfl, polled⟩
            | succ k => cases known
          · obtain ⟨rest, all⟩ := induction continued
            refine ⟨fun k wakeup known => ?_, fun polling => ?_⟩
            · cases k with
              | zero =>
                  cases known
                  exact ⟨revents, rfl, polled⟩
              | succ k =>
                  obtain ⟨revents', isResult, flags⟩ := rest k wakeup known
                  exact ⟨revents', isResult,
                    flags.trans (pfds_poll_poll revents revents' s client)⟩
            · rw [List.length_cons, List.length_cons, all polling]

/-- What becomes of the wakeups of a run that no exception has ended. -/
theorem run_wakeups {results : List PollResult} {s : PollMonitor σ}
    {wakeups : List Wakeup} {outcome : PollOutcome}
    (ran : run handle results s = (wakeups, outcome))
    (returned : ∀ failure, outcome ≠ .threw failure) :
    ∀ wakeup ∈ wakeups,
      (¬ wakeup.Unexpected → wakeup.monitored = wakeup.signalledFds) ∧
      (wakeup.Unexpected → wakeup.monitored = [] ∧ outcome = .panicked ∧
        wakeups.getLast? = some wakeup) := by
  induction results generalizing s wakeups with
  | nil =>
      cases ran
      exact fun _ none => absurd none List.not_mem_nil
  | cons result results induction =>
      cases result with
      | timeout =>
          cases ran
          exact absurd rfl (returned _)
      | failed error =>
          cases ran
          exact absurd rfl (returned _)
      | ready revents =>
          obtain ⟨first, later, rfl, _, ⟨bad, none, rfl, rfl⟩ |
            ⟨_, rfl, failure, rfl⟩ | ⟨good, all, ways⟩⟩ := run_ready_cases ran
          · intro wakeup member
            rw [List.mem_singleton.mp member]
            exact ⟨fun good => absurd bad good, fun _ => ⟨none, rfl, rfl⟩⟩
          · exact absurd rfl (returned failure)
          · intro wakeup member
            rcases List.mem_cons.mp member with rfl | inLater
            · exact ⟨fun _ => all, fun bad => absurd bad good⟩
            · rcases ways with ⟨rfl, _⟩ | ⟨client, continued⟩
              · cases inLater
              · obtain ⟨complete, panicked⟩ :=
                  induction continued wakeup inLater
                refine ⟨complete, fun bad => ?_⟩
                obtain ⟨none, outcome, last⟩ := panicked bad
                refine ⟨none, outcome, ?_⟩
                rw [List.getLast?_cons, last]
                rfl

theorem run_ready_alone {revents : Nat → UInt16} {results : List PollResult}
    {s : PollMonitor σ} {wakeups : List Wakeup} {outcome : PollOutcome}
    (alone : s.others = [])
    (ran : run handle (.ready revents :: results) s = (wakeups, outcome)) :
    ∃ wakeup later, wakeups = wakeup :: later ∧
      (wakeup.monitored = [] ∧ (later = [] ∨ ∃ client,
          run handle results { s.poll revents with client := client } =
            (later, outcome)) ∨
        wakeup.monitored = [s.stopPfd.fd] ∧
          wakeup.signalledFds = [s.stopPfd.fd] ∧ later = [] ∧
          outcome ≠ .polling) := by
  have polled : (s.poll revents).pfds = [(s.poll revents).stopPfd] := by
    simp [poll, pfds, alone]
  have same : (s.poll revents).stopPfd.fd = s.stopPfd.fd := rfl
  rw [run, polled] at ran
  by_cases unexpected : [(s.poll revents).stopPfd].any Pollfd.unexpected
  · rw [if_pos unexpected] at ran
    cases ran
    exact ⟨_, _, rfl, .inl ⟨rfl, .inl rfl⟩⟩
  · rw [if_neg unexpected] at ran
    by_cases signalled : (s.poll revents).stopPfd.signalled = true
    · have only : Wakeup.signalledFds ⟨[(s.poll revents).stopPfd],
          [s.stopPfd.fd]⟩ = [s.stopPfd.fd] := by
        simp [Wakeup.signalledFds, signalled, same]
      cases handled : handle s.stopPfd.fd s.client with
      | error failure =>
          have threw : monitor handle [(s.poll revents).stopPfd]
              (s.poll revents).client = ([s.stopPfd.fd], .error failure) := by
            rw [monitor, if_pos signalled, same,
              show (s.poll revents).client = s.client from rfl, handled]
          simp only [threw] at ran
          cases ran
          exact ⟨_, _, rfl, .inr ⟨rfl, only, rfl, by simp⟩⟩
      | ok client =>
          have passed : monitor handle [(s.poll revents).stopPfd]
              (s.poll revents).client = ([s.stopPfd.fd], .ok client) := by
            rw [monitor, if_pos signalled, same,
              show (s.poll revents).client = s.client from rfl, handled]
            rfl
          simp only [passed, if_pos signalled] at ran
          cases ran
          exact ⟨_, _, rfl, .inr ⟨rfl, only, rfl, by simp⟩⟩
    · have idle : monitor handle [(s.poll revents).stopPfd]
          (s.poll revents).client = ([], .ok s.client) := by
        rw [monitor, if_neg signalled]
        rfl
      simp only [idle, if_neg signalled] at ran
      cases ran
      exact ⟨_, _, rfl, .inl ⟨rfl, .inr ⟨_, rfl⟩⟩⟩

/-- A loop that polls the stop descriptor alone calls `monitor(fd)` for the stop
only, and ends with that. -/
theorem run_alone {results : List PollResult} {s : PollMonitor σ}
    {wakeups : List Wakeup} {outcome : PollOutcome} (alone : s.others = [])
    (ran : run handle results s = (wakeups, outcome)) :
    ∀ earlier wakeup later, wakeups = earlier ++ wakeup :: later →
      wakeup.monitored ≠ [] →
        wakeup.monitored = [s.stopPfd.fd] ∧
          wakeup.signalledFds = [s.stopPfd.fd] ∧ later = [] ∧
          outcome ≠ .polling := by
  induction results generalizing s wakeups with
  | nil =>
      cases ran
      intro earlier wakeup later split
      simp at split
  | cons result results induction =>
      cases result with
      | timeout =>
          cases ran
          intro earlier wakeup later split
          simp at split
      | failed error =>
          cases ran
          intro earlier wakeup later split
          simp at split
      | ready revents =>
          obtain ⟨first, rest, rfl, ways⟩ := run_ready_alone alone ran
          intro earlier wakeup later split monitored
          cases earlier with
          | nil =>
              cases split
              rcases ways with ⟨none, _⟩ | stopped
              · exact absurd none monitored
              · exact stopped
          | cons other earlier =>
              obtain ⟨rfl, inRest⟩ := List.cons.inj split
              rcases ways with ⟨_, rfl | ⟨client, continued⟩⟩ | ⟨_, _, rfl, _⟩
              · simp at inRest
              · exact induction (s := { s.poll revents with client := client })
                  (by simp [poll, alone]) continued earlier wakeup later inRest
                  monitored
              · simp at inRest

/-- Every descriptor reported with `POLLIN` is passed to `monitor(fd)` in its
iteration, unless the same result has an unexpected flag; such a result ends the
loop and nothing of it is passed on. -/
theorem run_monitored {stopFd : Int32} {fds : List Int32} {client : σ}
    {results : List PollResult} {wakeups : List Wakeup} {outcome : PollOutcome}
    (ran : run handle results (start stopFd fds client) = (wakeups, outcome))
    (returned : ∀ failure, outcome ≠ .threw failure) :
    (∀ (k : Nat) (wakeup : Wakeup), wakeups[k]? = some wakeup →
      ∃ revents, results[k]? = some (.ready revents) ∧
        wakeup.pfds = ((start stopFd fds client).poll revents).pfds) ∧
    (outcome = .polling → wakeups.length = results.length) ∧
    ∀ wakeup ∈ wakeups,
      (¬ wakeup.Unexpected → wakeup.monitored = wakeup.signalledFds) ∧
      (wakeup.Unexpected → wakeup.monitored = [] ∧ outcome = .panicked ∧
        wakeups.getLast? = some wakeup) ∧
      (wakeup.NoneSkipped ↔
        ¬ (wakeup.Unexpected ∧ wakeup.signalledFds ≠ [])) := by
  obtain ⟨results, length⟩ := run_results ran
  refine ⟨results, length, fun wakeup member => ?_⟩
  obtain ⟨complete, panicked⟩ := run_wakeups ran returned wakeup member
  refine ⟨complete, panicked, ?_⟩
  by_cases bad : wakeup.Unexpected
  · rw [Wakeup.noneSkipped_iff_of_none (panicked bad).1]
    simp [bad]
  · simp [bad, Wakeup.noneSkipped_of_all (complete bad)]

/-- Data of one descriptor, then more of it together with the stop. -/
theorem run_monitored_stop :
    (⟨[⟨3, 1⟩, ⟨4, 1⟩], [3, 4]⟩ : Wakeup).NoneSkipped :=
  ((run_monitored
    (show run (fun _ seen => .ok (seen + 1))
      [.ready fun i => if i = 0 then 0 else 1, .ready fun _ => 1]
      (start 3 [4] 0) =
        ([⟨[⟨3, 0⟩, ⟨4, 1⟩], [4]⟩, ⟨[⟨3, 1⟩, ⟨4, 1⟩], [3, 4]⟩], .stopped) from rfl)
    (fun _ threw => by cases threw)).2.2 ⟨[⟨3, 1⟩, ⟨4, 1⟩], [3, 4]⟩
      (.tail _ (.head _))).2.2.mpr fun bad => Bool.false_ne_true bad.1

/-- One descriptor has data when the peer of the other one hangs up. -/
theorem run_hangup_skips :
    ∃ wakeups, run (fun _ seen => .ok (seen + 1))
        [.ready fun i => if i = 1 then 1 else if i = 2 then 16 else 0]
        (start 3 [4, 5] 0) = (wakeups, .panicked) ∧
      ∃ wakeup ∈ wakeups, ¬ wakeup.NoneSkipped := by
  refine ⟨_, rfl, _, List.mem_singleton_self _, fun skipped => ?_⟩
  exact List.not_mem_nil (skipped ⟨4, 1⟩ (by decide) (by decide))

end PollMonitor

end Lo2s
