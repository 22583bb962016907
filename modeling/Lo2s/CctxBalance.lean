import Lo2s.CctxEnter
import Lo2s.Foundation.Bracket

/-!
# Calling-context events are balanced

Read as brackets, the events written so far leave exactly the references of the
call stack open.  Together with the path invariant of the stack and with the
fact that every written reference is the reference of a node of the tree, this
is carried through every call.
-/

namespace Lo2s

open Foundation KeyOrder

/-- An event as a bracket: an enter opens its reference, a leave closes it. -/
def TraceEvent.mark : TraceEvent → Mark Nat
  | .callingContextEnter _ ref _ => .opening ref
  | .callingContextLeave _ ref => .closing ref
  | _ => .neutral

theorem IsPathStack.path_ne_nil {tree : Node EnteredContext Nat}
    {stack : List NodePtr} (path : IsPathStack tree stack) {node : NodePtr}
    (member : node ∈ stack.dropLast) : node.path ≠ [] := by
  induction stack with
  | nil => exact path.elim
  | cons top rest induction =>
      cases rest with
      | nil => simp at member
      | cons below rest =>
          rcases List.mem_cons.mp member with same | inside
          · obtain ⟨⟨key, extends'⟩, _⟩ := path
            simp [same, extends']
          · exact induction path.2.2 inside

namespace LocalCctxTree

/-- `ref` is the reference of a node that is not the root. -/
def RefersTo (tree : Node EnteredContext Nat) (ref : Nat) : Prop :=
  ∃ path, path ≠ [] ∧ tree.valueAt path = some ref

theorem RefersTo.mono {old new : Node EnteredContext Nat} {ref : Nat}
    (known : RefersTo old ref) (grows : Grows old new) : RefersTo new ref :=
  let ⟨path, inside, stored⟩ := known
  ⟨path, inside, grows path ref stored⟩

/-- The joint invariant: the events leave the stack open, and name nodes. -/
structure Bracketed (t : LocalCctxTree) : Prop where
  invariant : t.Invariant
  replayed : replay [] (t.writer.map TraceEvent.mark) =
    some (t.cur.dropLast.map NodePtr.ref)
  named : ∀ event ∈ t.writer, ∀ ref, event.cctxRef? = some ref →
    RefersTo t.tree ref

theorem Bracketed.init (interruptGenerator : Nat) :
    (init interruptGenerator).Bracketed where
  invariant := .init interruptGenerator
  replayed := rfl
  named := fun _ member => absurd member List.not_mem_nil

theorem Invariant.refersTo {t : LocalCctxTree} (invariant : t.Invariant)
    {node : NodePtr} (member : node ∈ t.cur.dropLast) :
    RefersTo t.tree node.ref :=
  ⟨node.path, invariant.stack.path_ne_nil member,
    invariant.stack.valueAt invariant.tree.rootRef
      (List.dropLast_subset _ member)⟩

theorem Bracketed.cctxLeave {t : LocalCctxTree} (bracketed : t.Bracketed)
    (tp : TimePoint) (level : Nat) : (t.cctxLeave tp level).Bracketed := by
  cases level with
  | zero =>
      rw [cctxLeave_zero]
      exact bracketed
  | succ level =>
      have height := bracketed.invariant.cur_length
      let count := t.cur.length - (level + 1)
      have rootStays : count < t.cur.length := by omega
      have split : t.cur.dropLast =
          t.cur.take count ++ (t.cur.drop count).dropLast := by
        have nonempty : t.cur.drop count ≠ [] := by
          simpa using rootStays
        rw [← List.dropLast_append_of_ne_nil nonempty, List.take_append_drop]
      refine ⟨bracketed.invariant.cctxLeave tp _, ?_, ?_⟩
      · have marks : ∀ nodes : List NodePtr,
            (nodes.map fun node => TraceEvent.callingContextLeave tp node.ref).map
              TraceEvent.mark = (nodes.map NodePtr.ref).map Mark.closing := by
          intro nodes
          simp [TraceEvent.mark, Function.comp_def]
        rw [cctxLeave_writer tp level.succ_pos, cctxLeave_cur tp level.succ_pos,
          List.map_append, replay_append, bracketed.replayed, marks, split,
          List.map_append]
        exact replay_closings _ _
      · intro event member ref carries
        rw [cctxLeave_writer tp level.succ_pos] at member
        rcases List.mem_append.mp member with old | left
        · exact bracketed.named event old ref carries
        · obtain ⟨node, popped, rfl⟩ := List.mem_map.mp left
          cases carries
          apply bracketed.invariant.refersTo
          rw [split]
          exact List.mem_append_left _ popped

theorem Bracketed.pushed {tp : TimePoint} {cctx : EnteredContext}
    {t result : LocalCctxTree} (bracketed : t.Bracketed)
    (pushed : Pushed tp cctx t result) : result.Bracketed := by
  obtain ⟨node, key, cur, _, _, writer⟩ := pushed.entered
  have open' : result.cur.dropLast = node :: t.cur.dropLast := by
    rw [cur, List.dropLast_cons_of_ne_nil bracketed.invariant.cur_ne_nil]
  refine ⟨pushed.invariant, ?_, ?_⟩
  · rw [writer, open', List.map_append, replay_append, bracketed.replayed]
    rfl
  · intro event member ref carries
    rw [writer] at member
    rcases List.mem_append.mp member with old | entered
    · exact (bracketed.named event old ref carries).mono pushed.grows
    · rw [List.mem_singleton.mp entered] at carries
      cases carries
      apply pushed.invariant.refersTo
      rw [open']
      exact List.mem_cons_self

theorem Bracketed.sampled {tp : TimePoint} {distance : UInt64}
    {t result : LocalCctxTree} (bracketed : t.Bracketed)
    (inside : 1 ≤ t.curLevel) (sampled : Sampled tp distance t result) :
    result.Bracketed := by
  obtain ⟨back, rest, suffix, ref, top, stored, writer⟩ := sampled.sampled
  refine ⟨sampled.invariant, ?_, ?_⟩
  · rw [writer, sampled.cur, List.map_append, replay_append, bracketed.replayed]
    rfl
  · intro event member ref' carries
    rw [writer] at member
    rcases List.mem_append.mp member with old | new
    · exact (bracketed.named event old ref' carries).mono sampled.grows
    · rw [List.mem_singleton.mp new] at carries
      cases carries
      refine ⟨back.path ++ suffix, ?_, stored⟩
      have notBottom : back ∈ t.cur.dropLast := by
        cases rest with
        | nil => simp [curLevel, top] at inside
        | cons below rest => simp [top]
      have nonempty := bracketed.invariant.stack.path_ne_nil notBottom
      simp [nonempty]

theorem Bracketed.cctxEnter {t : LocalCctxTree} (bracketed : t.Bracketed)
    (tp : TimePoint) {level : Nat} (positive : 0 < level)
    (admissible : level ≤ t.curLevel + 1) (cctxs : List EnteredContext) :
    ∃ result, t.cctxEnter tp level cctxs = .ok result ∧ result.Bracketed := by
  induction cctxs generalizing t level with
  | nil => exact ⟨t, rfl, bracketed⟩
  | cons cctx cctxs induction =>
      obtain ⟨middle, entered, effect⟩ :=
        handleEnter_spec bracketed.invariant tp positive admissible cctx
      obtain ⟨same, sameEntered, _, height, _⟩ :=
        handleEnter_keeps bracketed.invariant tp positive admissible cctx
      rw [entered, Except.ok.injEq] at sameEntered
      subst sameEntered
      have middleBracketed : middle.Bracketed := by
        rcases effect with pushed | ⟨unchanged, _⟩
        · exact (bracketed.cctxLeave tp level).pushed pushed
        · exact unchanged ▸ bracketed
      obtain ⟨result, finished, holds⟩ :=
        induction middleBracketed level.succ_pos (by omega)
      exact ⟨result, by rw [LocalCctxTree.cctxEnter, entered]; exact finished,
        holds⟩

end LocalCctxTree

/-- Which calls a client may make: entering at a level that exists or is the
next one, and sampling while a context is entered. -/
def CctxCall.Admissible (t : LocalCctxTree) : CctxCall → Prop
  | .enter _ level _ _ => 0 < level ∧ level ≤ t.curLevel + 1
  | .leave _ _ => True
  | .sample _ _ _ _ => 1 ≤ t.curLevel
  | .sampleIp _ _ _ => 1 ≤ t.curLevel

instance (t : LocalCctxTree) : (call : CctxCall) →
    Decidable (call.Admissible t)
  | .enter _ level _ _ =>
      inferInstanceAs (Decidable (0 < level ∧ level ≤ t.curLevel + 1))
  | .leave _ _ => isTrue trivial
  | .sample _ _ _ _ => inferInstanceAs (Decidable (1 ≤ t.curLevel))
  | .sampleIp _ _ _ => inferInstanceAs (Decidable (1 ≤ t.curLevel))

/-- A call chain has a pointer, as the loop over it takes for granted. -/
def CctxCall.HasIp : CctxCall → Prop
  | .sample _ numIps _ _ => numIps ≠ 0
  | .enter _ _ _ _ | .leave _ _ | .sampleIp _ _ _ => True

instance : (call : CctxCall) → Decidable call.HasIp
  | .sample _ numIps _ _ => inferInstanceAs (Decidable (numIps ≠ 0))
  | .enter _ _ _ _ | .leave _ _ | .sampleIp _ _ _ => isTrue trivial

/-- The calls that are answered. -/
def CctxCall.Allowed (t : LocalCctxTree) (call : CctxCall) : Prop :=
  call.Admissible t ∧ call.HasIp

instance (t : LocalCctxTree) (call : CctxCall) : Decidable (call.Allowed t) :=
  inferInstanceAs (Decidable (_ ∧ _))

namespace LocalCctxTree

theorem hasIp_of_call {t next : LocalCctxTree} {call : CctxCall}
    (called : t.call call = .ok next) : call.HasIp := by
  cases call with
  | sample tp numIps ips rest => exact cctxSample_nonempty called
  | enter tp level ctx ctxs => trivial
  | leave tp level => trivial
  | sampleIp tp ip rest => trivial

theorem Bracketed.call {t : LocalCctxTree} (bracketed : t.Bracketed)
    {call : CctxCall} (allowed : call.Allowed t) :
    ∃ next, t.call call = .ok next ∧ next.Bracketed := by
  obtain ⟨admissible, hasIp⟩ := allowed
  cases call with
  | enter tp level ctx ctxs =>
      exact bracketed.cctxEnter tp admissible.1 admissible.2 (ctx :: ctxs)
  | leave tp level => exact ⟨_, rfl, bracketed.cctxLeave tp level⟩
  | sample tp numIps ips rest =>
      obtain ⟨result, finished, sampled⟩ :=
        cctxSample_spec bracketed.invariant tp hasIp ips rest
      exact ⟨result, finished, bracketed.sampled admissible sampled⟩
  | sampleIp tp ip rest =>
      obtain ⟨result, finished, sampled⟩ :=
        cctxSampleIp_spec bracketed.invariant tp ip rest
      exact ⟨result, finished, bracketed.sampled admissible sampled⟩

theorem Bracketed.run {t : LocalCctxTree} (bracketed : t.Bracketed)
    {calls : List CctxCall}
    (allowed : AllowedRun LocalCctxTree.call (fun t call => call.Allowed t)
      t calls) :
    ∃ final, Foundation.run LocalCctxTree.call t calls = .ok final ∧
      final.Bracketed :=
  run_invariant (fun _ _ holds allowed => holds.call allowed) bracketed allowed

/-- A reference that names a node is below the counter and names no other
node. -/
theorem Invariant.refersTo_unique {t : LocalCctxTree} (invariant : t.Invariant)
    {ref : Nat} (known : RefersTo t.tree ref) :
    ref < t.nextCctxRef ∧
      ∃ path, path ≠ [] ∧ t.tree.valueAt path = some ref ∧
        ∀ other, other ≠ [] → t.tree.valueAt other = some ref →
          EquivalentPaths path other := by
  obtain ⟨path, inside, stored⟩ := known
  have unique : t.tree.values.Nodup :=
    invariant.tree.refs.nodup_iff.mpr List.nodup_range
  refine ⟨?_, path, inside, stored, fun other otherInside otherStored =>
    Node.equivalentPaths_of_valueAt unique inside stored otherInside otherStored⟩
  have member := invariant.tree.refs.subset (Node.valueAt_mem_values stored inside)
  exact List.mem_range.mp member

/-- Closing the run: everything is left, and the references are final. -/
theorem Bracketed.closed {t : LocalCctxTree} (bracketed : t.Bracketed)
    (tp : TimePoint) :
    Balanced ((t.cctxLeave tp 1).finalize.writer.map TraceEvent.mark) := by
  have left := bracketed.cctxLeave tp 1
  have bottom : (t.cctxLeave tp 1).cur.dropLast = [] := by
    have height := left.invariant.cur_length
    rw [cctxLeave_curLevel tp Nat.one_pos] at height
    apply List.eq_nil_of_length_eq_zero
    rw [List.length_dropLast, height]
    omega
  have replayed := left.replayed
  rw [bottom] at replayed
  exact replayed

/-- No call fails and the stack is a path of the tree after each of them; once
everything is left, the events are balanced, and each names one node. -/
def EventsBalanced (interruptGenerator : Nat) (calls : List CctxCall)
    (tp : TimePoint) : Prop :=
  (∀ earlier, earlier <+: calls → ∃ t,
    Foundation.run call (init interruptGenerator) earlier = .ok t ∧
      IsPathStack t.tree t.cur) ∧
  ∃ t closed, Foundation.run call (init interruptGenerator) calls = .ok t ∧
    closed = (t.cctxLeave tp 1).finalize ∧
    Balanced (closed.writer.map TraceEvent.mark) ∧
    IsPathStack closed.tree closed.cur ∧
    ∀ event ∈ closed.writer, ∀ ref, event.cctxRef? = some ref →
      ref < closed.numCctx ∧
        ∃ path, path ≠ [] ∧ closed.tree.valueAt path = some ref ∧
          ∀ other, other ≠ [] → closed.tree.valueAt other = some ref →
            EquivalentPaths path other

theorem eventsBalanced_of_allowed {interruptGenerator : Nat}
    {calls : List CctxCall}
    (allowed : AllowedRun call (fun t call => call.Allowed t)
      (init interruptGenerator) calls) (tp : TimePoint) :
    EventsBalanced interruptGenerator calls tp := by
  constructor
  · intro earlier initial
    obtain ⟨t, finished, bracketed⟩ :=
      (Bracketed.init interruptGenerator).run (allowed.earlier initial)
    exact ⟨t, finished, bracketed.invariant.stack⟩
  · obtain ⟨t, finished, bracketed⟩ :=
      (Bracketed.init interruptGenerator).run allowed
    have left := bracketed.cctxLeave tp 1
    refine ⟨t, _, finished, rfl, bracketed.closed tp, left.invariant.stack, ?_⟩
    intro event member ref carries
    exact left.invariant.refersTo_unique (left.named event member ref carries)

/-- The calling-context events of a location are balanced exactly if every call
chain that is sampled has a pointer. -/
theorem eventsBalanced_iff (interruptGenerator : Nat) (calls : List CctxCall)
    (admissible : AllowedRun call (fun t call => call.Admissible t)
      (init interruptGenerator) calls) (tp : TimePoint) :
    EventsBalanced interruptGenerator calls tp ↔
      ∀ call ∈ calls, call.HasIp := by
  constructor
  · intro balanced
    obtain ⟨t, closed, ran, _⟩ := balanced.2
    exact forall_of_run (fun _ _ _ called => hasIp_of_call called) ran
  · intro hasIps
    exact eventsBalanced_of_allowed (admissible.and_forall hasIps) tp

/-- A system call with two samples in it, one of them of a call chain, followed
by a second one that is never left. -/
theorem eventsBalanced_iff_syscalls :
    EventsBalanced 0
      [.enter 1 1 (.syscall 7 ⟨0, 0, 0⟩) [], .sampleIp 2 64 ⟨0, 0, 0⟩,
        .sample 3 2 (fun i => [64, 32].get i) ⟨0, 0, 0⟩, .leave 4 1,
        .enter 5 1 (.syscall 8 ⟨0, 0, 0⟩) []] 6 :=
  (eventsBalanced_iff 0 _ (by decide) 6).mpr (by decide)

/-- A sample with an empty call chain in a system call. -/
theorem empty_chain_unbalanced :
    AllowedRun call (fun t call => call.Admissible t) (init 0)
      [.enter 1 1 (.syscall 7 ⟨0, 0, 0⟩) [],
        .sample 2 0 (fun i => i.elim0) ⟨0, 0, 0⟩] ∧
    ¬ EventsBalanced 0
      [.enter 1 1 (.syscall 7 ⟨0, 0, 0⟩) [],
        .sample 2 0 (fun i => i.elim0) ⟨0, 0, 0⟩] 3 := by
  constructor
  · refine ⟨by decide, fun next entered => ⟨?_, fun _ _ => trivial⟩⟩
    cases entered
    decide
  · intro balanced
    obtain ⟨t, closed, ran, _⟩ := balanced.2
    have hasIps := forall_of_run (fun _ _ _ called => hasIp_of_call called) ran
    exact hasIps (.sample 2 0 (fun i => i.elim0) ⟨0, 0, 0⟩) (by simp) rfl

end LocalCctxTree

end Lo2s
