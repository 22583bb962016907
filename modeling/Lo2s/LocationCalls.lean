import Lo2s.CctxMeaning

/-!
# The clients of a location

A client of a local tree writes other events between its calling-context events.
Without them, the tree is what the calls of the client have made of it, and so
it has the meaning of these calls.
-/

namespace Lo2s

open Foundation

theorem EnteredContext.type_process (process : Process)
    (unwritten : UnwrittenWords) :
    (EnteredContext.process process unwritten).context.type = .process := rfl

theorem EnteredContext.differs_of_type {old new : EnteredContext}
    (same : old.context.type = new.context.type) : old.differs new = false := by
  rw [Bool.eq_false_iff, Ne, differs_iff]
  exact fun both => both.1 same

namespace LocalCctxTree

/-- The tree with its calling-context events alone. -/
def onlyCctx (t : LocalCctxTree) : LocalCctxTree :=
  { t with writer := t.writer.filter fun event => event.cctxRef?.isSome }

@[simp] theorem onlyCctx_curLevel (t : LocalCctxTree) :
    t.onlyCctx.curLevel = t.curLevel := rfl

theorem onlyCctx_append {t : LocalCctxTree} {added : List TraceEvent}
    (cctx : ∀ event ∈ added, event.cctxRef?.isSome) :
    ({ t with writer := t.writer ++ added } : LocalCctxTree).onlyCctx =
      { t.onlyCctx with writer := t.onlyCctx.writer ++ added } := by
  rw [onlyCctx, List.filter_append, List.filter_eq_self.mpr cctx, onlyCctx]

theorem onlyCctx_write {t : LocalCctxTree} {event : TraceEvent}
    (other : event.cctxRef? = none) : (t.write event).onlyCctx = t.onlyCctx := by
  rw [write, onlyCctx, List.filter_append, onlyCctx]
  simp [other]

theorem leaveLoop_cctx (tp : TimePoint) (level : Nat) (stack : List NodePtr) :
    ∀ event ∈ (leaveLoop tp level stack).2, event.cctxRef?.isSome := by
  induction stack with
  | nil => simp [leaveLoop]
  | cons node below induction =>
      rw [leaveLoop]
      split_ifs
      · intro event member
        rcases List.mem_cons.mp member with rfl | rest
        · rfl
        · exact induction event rest
      · simp

theorem onlyCctx_cctxLeave (tp : TimePoint) (level : Nat) (t : LocalCctxTree) :
    (t.cctxLeave tp level).onlyCctx = t.onlyCctx.cctxLeave tp level := by
  have appended := onlyCctx_append
    (t := { t with cur := (leaveLoop tp level t.cur).1 })
    (leaveLoop_cctx tp level t.cur)
  exact appended

theorem onlyCctx_pushCctx (tp : TimePoint) (cctx : EnteredContext)
    (t : LocalCctxTree) :
    (t.pushCctx tp cctx).map onlyCctx = t.onlyCctx.pushCctx tp cctx := by
  unfold pushCctx
  split
  · next empty =>
      have same : t.onlyCctx.cur = [] := empty
      rw [same]
      rfl
  · next back below top =>
      have same : t.onlyCctx.cur = back :: below := top
      rw [same]
      refine congrArg Except.ok ?_
      exact onlyCctx_append (by simp [TraceEvent.cctxRef?])

theorem onlyCctx_handleEnterCctxNode (tp : TimePoint) (level : Nat)
    (cctx : EnteredContext) (t : LocalCctxTree) :
    (t.handleEnterCctxNode tp level cctx).map onlyCctx =
      t.onlyCctx.handleEnterCctxNode tp level cctx := by
  unfold handleEnterCctxNode
  rw [onlyCctx_curLevel]
  split_ifs
  · rfl
  · rfl
  · exact onlyCctx_pushCctx tp cctx t
  · have sameEntry : t.onlyCctx.entryAt level = t.entryAt level := rfl
    rw [sameEntry]
    cases (t.entryAt level).bind NodePtr.first with
    | none => rfl
    | some old =>
        simp only
        split
        · rfl
        · rw [onlyCctx_pushCctx, onlyCctx_cctxLeave]
        · rfl

theorem onlyCctx_cctxEnter (tp : TimePoint) (level : Nat)
    (cctxs : List EnteredContext) (t : LocalCctxTree) :
    (t.cctxEnter tp level cctxs).map onlyCctx =
      t.onlyCctx.cctxEnter tp level cctxs := by
  induction cctxs generalizing level t with
  | nil => rfl
  | cons cctx cctxs induction =>
      have first := onlyCctx_handleEnterCctxNode tp level cctx t
      rw [cctxEnter, cctxEnter, ← first]
      cases t.handleEnterCctxNode tp level cctx with
      | error failure => rfl
      | ok next => exact induction (level + 1) next

theorem onlyCctx_sampleLoop {size : Nat} (ips : Fin size → UInt64)
    (rest : UnwrittenWords) (index : Nat) (node : NodePtr) (t : LocalCctxTree) :
    sampleLoop ips rest index node t.onlyCctx =
      (sampleLoop ips rest index node t).map fun chain =>
        (chain.1.onlyCctx, chain.2) := by
  induction index generalizing node t with
  | zero => rfl
  | succ index induction =>
      simp only [sampleLoop]
      cases readIp ips (index + 1) with
      | error failure => rfl
      | ok ip =>
          simp only
          split_ifs
          · rfl
          · exact induction node t
          · exact induction (t.createCctxNode (.sample ip rest) node).2
              (t.createCctxNode (.sample ip rest) node).1

/-- Every call on the tree is a call on the tree without the other events. -/
theorem onlyCctx_call (call : CctxCall) (t : LocalCctxTree) :
    (t.call call).map onlyCctx = t.onlyCctx.call call := by
  have sampled : ∀ {t : LocalCctxTree} {event : TraceEvent},
      event.cctxRef?.isSome → (t.write event).onlyCctx =
        t.onlyCctx.write event :=
    fun cctx => onlyCctx_append (by simpa using cctx)
  cases call with
  | enter tp level ctx ctxs => exact onlyCctx_cctxEnter tp level (ctx :: ctxs) t
  | leave tp level =>
      exact congrArg Except.ok (onlyCctx_cctxLeave tp level t)
  | sample tp numIps ips rest =>
      change Except.map onlyCctx (t.cctxSample tp numIps ips rest) =
        t.onlyCctx.cctxSample tp numIps ips rest
      unfold cctxSample
      split
      · next empty =>
          have same : t.onlyCctx.cur = [] := empty
          rw [same]
          rfl
      · next back below top =>
          have same : t.onlyCctx.cur = back :: below := top
          simp only [same, onlyCctx_sampleLoop]
          cases sampleLoop ips rest (numIps - 1).toNat back t with
          | error failure => rfl
          | ok chain => exact congrArg Except.ok (sampled rfl)
  | sampleIp tp ip rest =>
      change Except.map onlyCctx (t.cctxSampleIp tp ip rest) =
        t.onlyCctx.cctxSampleIp tp ip rest
      unfold cctxSampleIp
      split
      · next empty =>
          have same : t.onlyCctx.cur = [] := empty
          rw [same]
          rfl
      · next back below top =>
          have same : t.onlyCctx.cur = back :: below := top
          simp only [same]
          exact congrArg Except.ok (sampled rfl)

/-- What calls within the bounds have made of a tree, and what they mean. -/
structure PlayedBy (t : LocalCctxTree) (s : ContextStack)
    (interruptGenerator : Nat) (calls : List CctxCall) : Prop where
  ran : run LocalCctxTree.call (.init interruptGenerator) calls =
    .ok t.onlyCctx
  allowed : AllowedRun LocalCctxTree.call (fun t call => call.Allowed t)
    (.init interruptGenerator) calls
  rooted : ∀ call ∈ calls, call.Rooted
  means : calls.foldl ContextStack.call .init = s

/-- A client has called for the contexts on a stack, and for its events. -/
def Plays (t : LocalCctxTree) (s : ContextStack) : Prop :=
  ∃ interruptGenerator calls, PlayedBy t s interruptGenerator calls

variable {t next : LocalCctxTree} {s : ContextStack}

theorem Plays.init (interruptGenerator : Nat) :
    (init interruptGenerator).Plays .init :=
  ⟨interruptGenerator, [], rfl, trivial, by simp, rfl⟩

theorem Plays.represents (plays : t.Plays s) : t.onlyCctx.Represents s := by
  obtain ⟨interruptGenerator, calls, played⟩ := plays
  obtain ⟨final, ran, represents⟩ :=
    (Represents.init interruptGenerator).run played.allowed
  cases ran.symm.trans played.ran
  exact played.means ▸ represents

theorem Plays.curLevel (plays : t.Plays s) : t.curLevel = s.stack.length :=
  plays.represents.curLevel

theorem Plays.call (plays : t.Plays s) {call : CctxCall}
    (allowed : call.Allowed t) (rooted : call.Rooted) :
    ∃ next, t.call call = .ok next ∧ next.Plays (s.call call) := by
  have inside : call.Allowed t.onlyCctx := by
    cases call <;> exact allowed
  obtain ⟨only, called, _⟩ := plays.represents.call inside
  have same := onlyCctx_call call t
  rw [called] at same
  cases reached : t.call call with
  | error failure =>
      rw [reached] at same
      cases same
  | ok next =>
      rw [reached] at same
      cases same
      obtain ⟨interruptGenerator, calls, ran, allowedRun, outermost, means⟩ :=
        plays
      refine ⟨next, rfl, interruptGenerator, calls ++ [call], ?_, ?_, ?_, ?_⟩
      · exact run_concat_eq_ok_iff.mpr ⟨_, ran, called⟩
      · exact allowedRun.concat ran inside
      · intro other member
        rcases List.mem_append.mp member with old | new
        · exact outermost other old
        · rw [List.mem_singleton.mp new]
          exact rooted
      · rw [List.foldl_concat, means]

theorem Plays.enter (plays : t.Plays s) (tp : TimePoint) {cctx : EnteredContext}
    (definable : ¬ cctx.NeedsParent) (cctxs : List EnteredContext) :
    ∃ next, t.cctxEnter tp 1 (cctx :: cctxs) = .ok next ∧
      next.Plays (s.enter tp 1 (cctx :: cctxs)) := by
  have allowed : CctxCall.Allowed t (.enter tp 1 cctx cctxs) :=
    ⟨⟨Nat.one_pos, Nat.le_add_left 1 _⟩, trivial⟩
  have rooted : CctxCall.Rooted (.enter tp 1 cctx cctxs) :=
    fun _ => definable
  exact plays.call allowed rooted

theorem Plays.leave (plays : t.Plays s) (tp : TimePoint) (level : Nat) :
    (t.cctxLeave tp level).Plays (s.leave tp level) := by
  have allowed : CctxCall.Allowed t (.leave tp level) := ⟨trivial, trivial⟩
  obtain ⟨left, called, there⟩ := plays.call allowed trivial
  cases called
  exact there

theorem Plays.write (plays : t.Plays s) {event : TraceEvent}
    (other : event.cctxRef? = none) : (t.write event).Plays s := by
  obtain ⟨interruptGenerator, calls, ran, allowed, rooted, means⟩ := plays
  exact ⟨interruptGenerator, calls, by rw [onlyCctx_write other, ran], allowed,
    rooted, means⟩

end LocalCctxTree

/-- A location that is closed: without the other events, its tree is the one of
a recording. -/
structure Location where
  tree : LocalCctxTree
  recording : Recording
  only : tree.onlyCctx = recording.tree

namespace Location

/-- The calling-context events. -/
def events (location : Location) : List TraceEvent :=
  location.tree.onlyCctx.writer

/-- The events by the contexts the client asked for. -/
def meaning (location : Location) : List PathEvent :=
  location.recording.meaning

end Location

theorem LocalCctxTree.Plays.close {t : LocalCctxTree} {s : ContextStack}
    (plays : t.Plays s) (last : TimePoint) :
    ∃ location : Location, location.tree = (t.cctxLeave last 1).finalize ∧
      location.meaning = (s.leave last 1).log := by
  obtain ⟨interruptGenerator, calls, ran, allowed, rooted, means⟩ := plays
  refine ⟨⟨(t.cctxLeave last 1).finalize,
    ⟨interruptGenerator, calls, last, t.onlyCctx, ran, allowed, rooted⟩,
    ?_⟩, rfl, ?_⟩
  · exact congrArg LocalCctxTree.finalize (onlyCctx_cctxLeave last 1 t)
  · rw [Location.meaning, Recording.meaning, means]

namespace CctxRegistry

variable {σ : Type u} {δ : Type v} (registry : CctxRegistry σ δ)

theorem mergeAll_onlyCctx (trees : List LocalCctxTree)
    (global : Forest EnteredContext δ) (state : σ) :
    registry.mergeAll (trees.map LocalCctxTree.onlyCctx) global state =
      registry.mergeAll trees global state := by
  induction trees generalizing global state with
  | nil => rfl
  | cons tree trees induction =>
      simp only [List.map_cons, mergeAll, induction]
      rfl

theorem finalizeTrees_onlyCctx (trees : List LocalCctxTree)
    (global : Forest EnteredContext δ) (state : σ) :
    registry.finalizeTrees (trees.map LocalCctxTree.onlyCctx) global state =
      registry.finalizeTrees trees global state := by
  rw [finalizeTrees, List.filter_map, mergeAll_onlyCctx, finalizeTrees]
  rfl

/-- The trees of all locations are merged.  Every calling-context event of every
location, looked up in the table of the location, is about exactly the contexts
its client asked for.  The global tree holds these contexts and no others. -/
theorem finalizeTrees_tells (locations : List Location) (state : σ) :
    ∃ tables merged next,
      registry.finalizeTrees (locations.map Location.tree) .nil state =
        .ok (tables, merged, next) ∧
      List.Forall₂ (fun (location : Location) table =>
          List.Forall₂ (Reads (LeadsTo registry merged table)) location.events
            location.meaning)
        (locations.filter fun location => 0 < location.tree.numCctx) tables ∧
      (∀ location ∈ locations, location.tree.numCctx = 0 →
        location.events = []) ∧
      ∀ path, path ≠ [] → ((merged.valueAt path).isSome ↔
        ∃ location ∈ locations, Visited location.meaning path) := by
  have sameNumber : ∀ location : Location,
      location.recording.tree.numCctx = location.tree.numCctx := by
    intro location
    rw [← location.only]
    rfl
  have sameTrees : (locations.map Location.recording).map Recording.tree =
      (locations.map Location.tree).map LocalCctxTree.onlyCctx := by
    rw [List.map_map, List.map_map]
    exact List.map_congr_left fun location _ => location.only.symm
  obtain ⟨tables, merged, next, finished, reads, silent, paths⟩ :=
    Recording.finalizeTrees_meaning registry
      (locations.map Location.recording) state
  refine ⟨tables, merged, next, ?_, ?_, ?_, ?_⟩
  · rw [← finalizeTrees_onlyCctx, ← sameTrees]
    exact finished
  · rw [List.filter_map, List.forall₂_map_left_iff] at reads
    simp only [Function.comp_def, sameNumber] at reads
    refine reads.imp fun location table read => ?_
    rw [Location.events, location.only]
    exact read
  · intro location member none
    rw [Location.events, location.only]
    exact silent _ (List.mem_map_of_mem member) ((sameNumber location).trans none)
  · intro path inside
    rw [paths path inside]
    simp only [List.mem_map, exists_exists_and_eq_and]
    rfl

end CctxRegistry

end Lo2s
