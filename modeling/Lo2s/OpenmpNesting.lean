import Lo2s.CctxBalance
import Lo2s.OpenmpThreads

/-!
# Nesting of OpenMP regions

A thread is a stack of regions: an enter pushes one, an exit pops the innermost
one or nothing.  The tree of the thread has the process below this stack, and
what is written for the thread is what the stack does.
-/

namespace Lo2s

open Foundation KeyOrder

/-- What is to be written for a region. -/
inductive RegionEvent where
  | enter (tp : TimePoint) (cctx : OMPTCctx)
  | leave (tp : TimePoint) (cctx : OMPTCctx)

/-- The regions a thread is in, the innermost first, and what is to be written
for it. -/
structure Regions where
  opened : List OMPTCctx
  written : List RegionEvent

namespace Regions

def empty : Regions := ⟨[], []⟩

def step (converter : Converter) (r : Regions) : OmptEvent → Regions
  | .enter tp cctx =>
      ⟨cctx :: r.opened, r.written ++ [.enter (converter.convert tp) cctx]⟩
  | .exit tp _ =>
      match r.opened with
      | [] => r
      | cctx :: opened =>
          ⟨opened, r.written ++ [.leave (converter.convert tp) cctx]⟩
  | .other => r

/-- The regions after some events. -/
def after (converter : Converter) (r : Regions) (events : List OmptEvent) :
    Regions :=
  events.foldl (step converter) r

end Regions

/-- Events that are properly nested: from the regions that are open before them
they lead to those open afterwards, and each exit belongs to the innermost
region.  `same` compares the context of an exit with that of the enter. -/
inductive Nested (same : OMPTCctx → OMPTCctx → Prop) :
    List OMPTCctx → List OmptEvent → List OMPTCctx → Prop where
  | nil (opened : List OMPTCctx) : Nested same opened [] opened
  | enter {tp : UInt64} {cctx : OMPTCctx} {opened rest : List OMPTCctx}
      {events : List OmptEvent} :
      Nested same (cctx :: opened) events rest →
      Nested same opened (.enter tp cctx :: events) rest
  | exit {tp : UInt64} {cctx entered : OMPTCctx} {opened rest : List OMPTCctx}
      {events : List OmptEvent} :
      same cctx entered → Nested same opened events rest →
      Nested same (entered :: opened) (.exit tp cctx :: events) rest

namespace LocalCctxTree

/-- `ref` is the reference of a node for a context. -/
def Named (tree : Node EnteredContext Nat) (ref : Nat)
    (cctx : EnteredContext) : Prop :=
  ∃ path key, tree.valueAt (path ++ [key]) = some ref ∧ Equivalent key cctx

variable {old new : Node EnteredContext Nat} {ref : Nat}
  {cctx : EnteredContext}

theorem Named.mono (named : Named old ref cctx) (grows : Grows old new) :
    Named new ref cctx :=
  let ⟨path, key, stored, same⟩ := named
  ⟨path, key, grows _ ref stored, same⟩

theorem Named.unique {t : LocalCctxTree} (invariant : t.Invariant)
    {other : EnteredContext} (left : Named t.tree ref cctx)
    (right : Named t.tree ref other) : Equivalent cctx other := by
  obtain ⟨leftPath, leftKey, leftStored, leftSame⟩ := left
  obtain ⟨rightPath, rightKey, rightStored, rightSame⟩ := right
  have unique : t.tree.values.Nodup :=
    invariant.tree.refs.nodup_iff.mpr List.nodup_range
  have paths := Node.equivalentPaths_of_valueAt unique (by simp) leftStored
    (by simp) rightStored
  have keys : Equivalent leftKey rightKey := by
    have reversed := List.forall₂_reverse_iff.mpr paths
    simp only [List.reverse_append, List.reverse_cons, List.reverse_nil,
      List.nil_append, List.singleton_append] at reversed
    exact (List.forall₂_cons.mp reversed).1
  exact leftSame.symm.trans (keys.trans rightSame)

/-- The new top of the stack is a node for what has been pushed. -/
theorem Pushed.named {tp : TimePoint} {t result : LocalCctxTree}
    (pushed : Pushed tp cctx t result) :
    ∃ node, result.cur = node :: t.cur ∧ Named result.tree node.ref cctx ∧
      result.writer = t.writer ++ [.callingContextEnter tp node.ref 2] := by
  obtain ⟨node, key, cur, first, same, writer⟩ := pushed.entered
  have stored := pushed.invariant.stack.valueAt
    pushed.invariant.tree.rootRef (by rw [cur]; exact List.mem_cons_self)
  obtain ⟨path, split⟩ := List.getLast?_eq_some_iff.mp first
  exact ⟨node, cur, ⟨path, key, by rw [← split]; exact stored, same⟩, writer⟩

theorem Invariant.cctxEnter_top {t : LocalCctxTree} (invariant : t.Invariant)
    (tp : TimePoint) (cctx : EnteredContext) :
    ∃ result, t.cctxEnter tp (t.curLevel + 1) [cctx] = .ok result ∧
      Pushed tp cctx t result := by
  obtain ⟨result, pushed, spec⟩ := pushCctx_spec invariant tp cctx
  refine ⟨result, ?_, spec⟩
  rw [cctxEnter, handleEnter_push tp rfl, pushed]
  rfl

/-- A region event is written as an event of the tree. -/
inductive Records (tree : Node EnteredContext Nat) :
    RegionEvent → TraceEvent → Prop where
  | enter {tp : TimePoint} {cctx : OMPTCctx} {ref : Nat} :
      Named tree ref (.openmp cctx) →
      Records tree (.enter tp cctx) (.callingContextEnter tp ref 2)
  | leave {tp : TimePoint} {cctx : OMPTCctx} {ref : Nat} :
      Named tree ref (.openmp cctx) →
      Records tree (.leave tp cctx) (.callingContextLeave tp ref)

theorem Records.mono {event : RegionEvent} {written : TraceEvent}
    (records : Records old event written) (grows : Grows old new) :
    Records new event written := by
  cases records with
  | enter named => exact .enter (named.mono grows)
  | leave named => exact .leave (named.mono grows)

/-- The tree of a thread: the regions stand above the process, which was
entered first. -/
structure Recorded (process : EnteredContext) (r : Regions)
    (t : LocalCctxTree) : Prop where
  bracketed : t.Bracketed
  regions : ∃ first below bottom nodes middle,
    t.writer = .callingContextEnter first below.ref 2 :: middle ∧
      t.cur = nodes ++ [below, bottom] ∧
      Named t.tree below.ref process ∧
      List.Forall₂ (Records t.tree) r.written middle ∧
      List.Forall₂ (fun cctx node => Named t.tree node.ref (.openmp cctx))
        r.opened nodes

variable {process : EnteredContext} {r : Regions} {t : LocalCctxTree}

theorem Recorded.start (interruptGenerator : Nat) (tp : TimePoint)
    (process : EnteredContext) :
    ∃ result, (init interruptGenerator).cctxEnter tp 1 [process] = .ok result ∧
      Recorded process .empty result := by
  have bracketed := Bracketed.init interruptGenerator
  obtain ⟨result, entered, pushed⟩ :=
    bracketed.invariant.cctxEnter_top tp process
  obtain ⟨node, cur, named, writer⟩ := pushed.named
  exact ⟨result, entered, bracketed.pushed pushed, tp, node, .root, [], [],
    writer, cur, named, .nil, .nil⟩

theorem Recorded.enter (recorded : Recorded process r t)
    (converter : Converter) (tp : UInt64) (cctx : OMPTCctx) :
    ∃ result, t.cctxEnter (converter.convert tp) (t.curLevel + 1)
        [.openmp cctx] = .ok result ∧
      Recorded process (r.step converter (.enter tp cctx)) result := by
  obtain ⟨first, below, bottom, nodes, middle, writer, cur, named, written,
    opened⟩ := recorded.regions
  obtain ⟨result, entered, pushed⟩ :=
    recorded.bracketed.invariant.cctxEnter_top (converter.convert tp)
      (.openmp cctx)
  obtain ⟨node, newCur, newNamed, newWriter⟩ := pushed.named
  refine ⟨result, entered, recorded.bracketed.pushed pushed, first, below,
    bottom, node :: nodes, middle ++ [.callingContextEnter (converter.convert tp) node.ref 2],
    ?_, ?_, named.mono pushed.grows, ?_, ?_⟩
  · rw [newWriter, writer, List.cons_append]
  · rw [newCur, cur, List.cons_append]
  · exact List.rel_append (written.imp fun _ _ records =>
      records.mono pushed.grows) (.cons (.enter newNamed) .nil)
  · exact .cons newNamed (opened.imp fun _ _ known => known.mono pushed.grows)

theorem Recorded.exit (recorded : Recorded process r t)
    (converter : Converter) (tp : UInt64) (cctx : OMPTCctx) :
    Recorded process (r.step converter (.exit tp cctx))
      (if t.curLevel ≠ OpenmpMonitor.cctxLevelProcess then
        t.cctxLeaveTop (converter.convert tp) else t) := by
  obtain ⟨first, below, bottom, nodes, middle, writer, cur, named, written,
    opened⟩ := recorded.regions
  have level : t.curLevel = nodes.length + 1 := by
    simp [LocalCctxTree.curLevel, cur]
  rw [Regions.step]
  cases nodes with
  | nil =>
      have none := List.forall₂_nil_right_iff.mp opened
      have outside : t.curLevel = OpenmpMonitor.cctxLevelProcess := level
      rw [if_neg (not_not.mpr outside), none]
      exact recorded
  | cons node nodes =>
      obtain ⟨top, rest, left, below', stack⟩ :=
        List.forall₂_cons_right_iff.mp opened
      have inside : t.curLevel ≠ OpenmpMonitor.cctxLevelProcess := by
        rw [level, OpenmpMonitor.cctxLevelProcess, List.length_cons]
        omega
      have pops : t.cur.length - t.curLevel = 1 := by
        rw [level, cur]
        simp
      have positive : 0 < t.curLevel := by omega
      rw [if_pos inside, cctxLeaveTop, stack]
      refine ⟨recorded.bracketed.cctxLeave _ _, first, below, bottom, nodes,
        middle ++ [.callingContextLeave (converter.convert tp) node.ref], ?_, ?_,
        named, ?_, below'⟩
      · rw [cctxLeave_writer _ positive, pops, writer, cur]
        rfl
      · rw [cctxLeave_cur _ positive, pops, cur]
        rfl
      · exact List.rel_append written (.cons (.leave left) .nil)

end LocalCctxTree

/-- An event of a thread is written: an enter with its context, an exit with
the context it has been compared with. -/
inductive Written (same : OMPTCctx → OMPTCctx → Prop) (converter : Converter) :
    OmptEvent → RegionEvent → Prop where
  | enter {tp : UInt64} {cctx : OMPTCctx} :
      Written same converter (.enter tp cctx) (.enter (converter.convert tp) cctx)
  | exit {tp : UInt64} {cctx entered : OMPTCctx} :
      same cctx entered → Written same converter (.exit tp cctx)
        (.leave (converter.convert tp) entered)

theorem Nested.after {same : OMPTCctx → OMPTCctx → Prop}
    {opened rest : List OMPTCctx} {events : List OmptEvent}
    (nested : Nested same opened events rest) (converter : Converter)
    (earlier : List RegionEvent) :
    ∃ written, Regions.after converter ⟨opened, earlier⟩ events =
        ⟨rest, earlier ++ written⟩ ∧
      List.Forall₂ (Written same converter) events written := by
  induction nested generalizing earlier with
  | nil opened => exact ⟨[], by rw [List.append_nil]; rfl, .nil⟩
  | @enter tp cctx opened rest events _ induction =>
      obtain ⟨written, after, each⟩ :=
        induction (earlier ++ [.enter (converter.convert tp) cctx])
      refine ⟨.enter (converter.convert tp) cctx :: written, ?_,
        .cons .enter each⟩
      rw [List.append_assoc] at after
      exact after
  | @exit tp cctx entered opened rest events compared _ induction =>
      obtain ⟨written, after, each⟩ :=
        induction (earlier ++ [.leave (converter.convert tp) entered])
      refine ⟨.leave (converter.convert tp) entered :: written, ?_,
        .cons (.exit compared) each⟩
      rw [List.append_assoc] at after
      exact after

namespace OpenmpMonitor

/-- A thread that has had some events. -/
def Follows (m : OpenmpMonitor) (events : List OmptEvent) :
    Option OpenmpThread → Prop
  | none => ∀ event ∈ events, event = .other
  | some thread => LocalCctxTree.Recorded (.process m.process m.unwritten)
      (Regions.after m.timeConverter .empty events) thread.tree

theorem Follows.started {m : OpenmpMonitor} {events : List OmptEvent}
    {thread : Option OpenmpThread} (follows : m.Follows events thread)
    (tp : TimePoint) :
    ∃ tree, m.started tp thread = .ok tree ∧
      LocalCctxTree.Recorded (.process m.process m.unwritten)
        (Regions.after m.timeConverter .empty events) tree := by
  cases thread with
  | some thread => exact ⟨thread.tree, rfl, follows⟩
  | none =>
      have nothing : Regions.after m.timeConverter .empty events = .empty := by
        have others : events = List.replicate events.length .other :=
          List.eq_replicate_iff.mpr ⟨rfl, follows⟩
        rw [others]
        induction events.length with
        | zero => rfl
        | succ count induction => exact induction
      rw [nothing]
      exact LocalCctxTree.Recorded.start _ tp _

theorem Follows.handle {m : OpenmpMonitor} {events : List OmptEvent}
    {thread : Option OpenmpThread} (follows : m.Follows events thread)
    (event : OmptEvent) :
    ∃ next, m.threadHandle thread event = .ok next ∧
      m.Follows (events ++ [event]) next := by
  have after : ∀ event, Regions.after m.timeConverter .empty
      (events ++ [event]) = Regions.step m.timeConverter
        (Regions.after m.timeConverter .empty events) event :=
    fun event => List.foldl_append
  cases event with
  | enter tp cctx =>
      obtain ⟨tree, started, recorded⟩ :=
        follows.started (m.timeConverter.convert tp)
      obtain ⟨result, entered, next⟩ := recorded.enter m.timeConverter tp cctx
      refine ⟨some ⟨result, m.timeConverter.convert tp⟩, ?_, ?_⟩
      · simp only [threadHandle, started, entered, bind, Except.bind]
        rfl
      · rw [Follows, after]
        exact next
  | exit tp cctx =>
      obtain ⟨tree, started, recorded⟩ :=
        follows.started (m.timeConverter.convert tp)
      refine ⟨_, by simp only [threadHandle, started, bind, Except.bind]; rfl, ?_⟩
      rw [Follows, after]
      exact recorded.exit m.timeConverter tp cctx
  | other =>
      refine ⟨thread, rfl, ?_⟩
      cases thread with
      | none =>
          intro event member
          rcases List.mem_append.mp member with earlier | last
          · exact follows event earlier
          · exact List.mem_singleton.mp last
      | some thread =>
          rw [Follows, after]
          exact follows

theorem follows_of_run (m : OpenmpMonitor) (events : List OmptEvent) :
    ∃ thread, run m.threadHandle none events = .ok thread ∧
      m.Follows events thread := by
  induction events using List.reverseRecOn with
  | nil => exact ⟨none, rfl, fun _ absent => nomatch absent⟩
  | append_singleton events event induction =>
      obtain ⟨thread, reached, follows⟩ := induction
      rw [run_concat, reached]
      exact follows.handle event

/-- What is written for a thread, until the monitor ends and afterwards.  The
process is entered first and left last; nested events are written one by one,
and the end of the monitor leaves the regions that are still open. -/
structure NestingPreserved (process : EnteredContext) (converter : Converter)
    (events : List OmptEvent) (before after : LocalCctxTree) : Prop where
  balanced : Balanced (after.writer.map TraceEvent.mark)
  process : ∃ first last ref closing,
    LocalCctxTree.Named after.tree ref process ∧
      before.writer.head? = some (.callingContextEnter first ref 2) ∧
      after.writer = before.writer ++ closing ++ [.callingContextLeave last ref] ∧
      ∀ event ∈ before.writer.tail ++ closing, event.cctxRef? ≠ some ref
  nested : ∀ same rest, Nested same [] events rest →
    after.writer.length = before.writer.length + rest.length + 1 ∧
      ∃ written, List.Forall₂ (Written same converter) events written ∧
        List.Forall₂ (LocalCctxTree.Records after.tree) written
          before.writer.tail

theorem exists_of_forall₂_right {α β : Type} {relation : α → β → Prop}
    {left : List α} {right : List β} (all : List.Forall₂ relation left right) :
    ∀ b ∈ right, ∃ a ∈ left, relation a b := by
  induction all with
  | nil => exact fun _ absent => absurd absent List.not_mem_nil
  | @cons a b left right related _ induction =>
      intro x member
      rcases List.mem_cons.mp member with rfl | inside
      · exact ⟨a, List.mem_cons_self, related⟩
      · obtain ⟨y, found, holds⟩ := induction x inside
        exact ⟨y, List.mem_cons_of_mem a found, holds⟩

theorem ne_process {process : Process} {unwritten : UnwrittenWords}
    {t : LocalCctxTree} (invariant : t.Invariant) {ref other : Nat}
    (named : LocalCctxTree.Named t.tree ref (.process process unwritten))
    {cctx : OMPTCctx} (region : LocalCctxTree.Named t.tree other (.openmp cctx)) :
    some other ≠ some ref := by
  intro same
  rw [Option.some.inj same] at region
  have type : CallingContextType.process = .openmp :=
    EnteredContext.type_eq_of_equivalent (named.unique invariant region)
  cases type

theorem NestingPreserved.of_recorded {process : Process}
    {unwritten : UnwrittenWords} {converter : Converter}
    {events : List OmptEvent} {t : LocalCctxTree}
    (recorded : LocalCctxTree.Recorded (.process process unwritten)
      (Regions.after converter .empty events) t) (last : TimePoint) :
    NestingPreserved (.process process unwritten) converter events t
      (t.cctxLeave last cctxLevelProcess).finalize := by
  obtain ⟨first, below, bottom, nodes, middle, writer, cur, named, written,
    opened⟩ := recorded.regions
  let closing := nodes.map fun node =>
    TraceEvent.callingContextLeave last node.ref
  have left : (t.cctxLeave last 1).finalize.writer =
      t.writer ++ closing ++ [.callingContextLeave last below.ref] := by
    have pops : t.cur.take (t.cur.length - 1) = nodes ++ [below] := by
      rw [cur]
      simp [List.take_append]
    show (t.cctxLeave last 1).writer = _
    rw [LocalCctxTree.cctxLeave_writer last Nat.one_pos, pops, List.map_append,
      List.append_assoc]
    rfl
  refine ⟨recorded.bracketed.closed last, ⟨first, last, below.ref, closing,
    named, by rw [writer]; rfl, left, ?_⟩, ?_⟩
  · intro event member
    have invariant := recorded.bracketed.invariant
    rw [writer] at member
    rcases List.mem_append.mp member with inside | last
    · obtain ⟨_, _, records⟩ := exists_of_forall₂_right written event inside
      cases records with
      | enter region => exact ne_process invariant named region
      | leave region => exact ne_process invariant named region
    · obtain ⟨node, stands, rfl⟩ := List.mem_map.mp last
      obtain ⟨_, _, region⟩ := exists_of_forall₂_right opened node stands
      exact ne_process invariant named region
  · intro same rest nested
    obtain ⟨regions, after, each⟩ := nested.after converter []
    rw [Regions.empty, after] at written opened
    refine ⟨?_, regions, each, ?_⟩
    · rw [cctxLevelProcess, left, List.length_append, List.length_append,
        List.length_map, opened.length_eq]
      rfl
    · rw [writer]
      exact written

theorem finalizeThread_lookup (m : OpenmpMonitor) (tid : UInt64) :
    m.finalizeThread.localCctxTrees.lookup tid =
      (m.thread tid).map fun thread =>
        (thread.tree.cctxLeave thread.lastTp cctxLevelProcess).finalize := by
  rw [finalizeThread, FiniteMap.lookup_mapValues, thread, Option.map_map]
  rfl

theorem thread_tree (m : OpenmpMonitor) (tid : UInt64) :
    m.localCctxTrees.lookup tid = (m.thread tid).map OpenmpThread.tree := by
  rw [thread, Option.map_map]
  exact Option.map_id'.symm

/-- Nesting is preserved, whatever the threads do in between each other: what is
written for a thread depends on its own events only. -/
theorem nesting_preserved (process : Process) (converter : Converter)
    (interruptGenerator : Nat) (unwritten : UnwrittenWords)
    (events : List OmptEvent) :
    ∃ m, run handle (.init process converter interruptGenerator unwritten)
        events = .ok m ∧
      ∀ tid,
        (ofThread tid events = [] →
          m.localCctxTrees.lookup tid = none ∧
            m.finalizeThread.localCctxTrees.lookup tid = none) ∧
        (ofThread tid events ≠ [] →
          ∃ before after, m.localCctxTrees.lookup tid = some before ∧
            m.finalizeThread.localCctxTrees.lookup tid = some after ∧
            NestingPreserved (.process process unwritten) converter
              (ofThread tid events) before after) ∧
        ∀ others, ofThread tid others = ofThread tid events →
          ∃ m', run handle (.init process converter interruptGenerator unwritten)
              others = .ok m' ∧
            m'.localCctxTrees.lookup tid = m.localCctxTrees.lookup tid ∧
            m'.finalizeThread.localCctxTrees.lookup tid =
              m.finalizeThread.localCctxTrees.lookup tid := by
  let start := OpenmpMonitor.init process converter interruptGenerator unwritten
  have reach : ∀ events, ∃ m, run handle start events = .ok m ∧
      ∀ tid, run start.threadHandle none (ofThread tid events) =
        .ok (m.thread tid) := fun events =>
    run_handle fun tid =>
      let ⟨thread, ran, _⟩ := start.follows_of_run (ofThread tid events)
      ⟨thread, ran⟩
  obtain ⟨m, reached, threads⟩ := reach events
  refine ⟨m, reached, fun tid => ⟨?_, ?_, ?_⟩⟩
  · intro quiet
    have ran := threads tid
    rw [quiet] at ran
    have thread : m.thread tid = none := (Except.ok.inj ran).symm
    rw [thread_tree, finalizeThread_lookup, thread]
    exact ⟨rfl, rfl⟩
  · intro busy
    obtain ⟨thread, ran, follows⟩ := start.follows_of_run (ofThread tid events)
    rw [threads tid] at ran
    have same : m.thread tid = thread := Except.ok.inj ran
    rw [thread_tree, finalizeThread_lookup, same]
    cases thread with
    | none =>
        obtain ⟨event, member⟩ := List.exists_mem_of_ne_nil _ busy
        have belongs : event.thread? = some tid := by
          simpa using (List.mem_filter.mp member).2
        rw [follows event member] at belongs
        cases belongs
    | some thread =>
        exact ⟨thread.tree, _, rfl, rfl, .of_recorded follows thread.lastTp⟩
  · intro others same
    obtain ⟨m', reached', threads'⟩ := reach others
    have thread : m'.thread tid = m.thread tid := by
      have ran := threads' tid
      rw [same, threads tid] at ran
      exact (Except.ok.inj ran).symm
    refine ⟨m', reached', ?_, ?_⟩
    · rw [thread_tree, thread_tree, thread]
    · rw [finalizeThread_lookup, finalizeThread_lookup, thread]

end OpenmpMonitor

end Lo2s
