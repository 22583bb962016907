import Lo2s.ContextStack
import Lo2s.MergeExact

/-!
# What a reader of the trace sees

The events of a location carry references into the local tree of the location.
A reader of the trace looks each of them up in the mapping table of the
location, which leads to a definition of the global tree.  For the locations
whose outermost contexts are processes, threads or system calls, this gives
back every context the clients asked for, whichever other locations the trace
has.
-/

namespace Lo2s

open Foundation KeyOrder

instance (cctx : EnteredContext) : Decidable cctx.NeedsParent :=
  inferInstanceAs (Decidable (_ ∨ _ ∨ _))

theorem EnteredContext.needsParent_congr {left right : EnteredContext}
    (equivalent : Equivalent left right) :
    left.NeedsParent ↔ right.NeedsParent := by
  rw [NeedsParent, NeedsParent, type_eq_of_equivalent equivalent]

/-- What is entered at the outermost level can be defined without a parent. -/
def CctxCall.Rooted : CctxCall → Prop
  | .enter _ level ctx _ => level = 1 → ¬ ctx.NeedsParent
  | _ => True

instance : (call : CctxCall) → Decidable call.Rooted
  | .enter _ level ctx _ =>
      inferInstanceAs (Decidable (level = 1 → ¬ ctx.NeedsParent))
  | .leave _ _ | .sample _ _ _ _ | .sampleIp _ _ _ => isTrue trivial

namespace ContextStack

/-- The outermost contexts, of the stack and of the events, can be defined
without a parent. -/
structure Rooted (s : ContextStack) : Prop where
  stack : ∀ outer, s.stack.getLast? = some outer → ¬ outer.NeedsParent
  log : ∀ event ∈ s.log, ∀ outer, event.path.head? = some outer →
    ¬ outer.NeedsParent

theorem Rooted.init : Rooted .init where
  stack := by simp [ContextStack.init]
  log := by simp [ContextStack.init]

theorem leave_length (tp : TimePoint) {level : Nat} (positive : 0 < level)
    (s : ContextStack) :
    (s.leave tp level).stack.length = min s.stack.length (level - 1) := by
  simp only [leave, toLeave, if_neg (Nat.ne_of_gt positive), List.length_drop]
  omega

theorem Rooted.leave {s : ContextStack} (rooted : s.Rooted) (tp : TimePoint)
    (level : Nat) : (s.leave tp level).Rooted where
  stack := by
    intro outer last
    rw [ContextStack.leave, List.getLast?_drop] at last
    split at last
    · cases last
    · exact rooted.stack outer last
  log := by
    intro event member outer head
    rcases List.mem_append.mp member with old | left
    · exact rooted.log event old outer head
    · obtain ⟨inner, within, rfl⟩ := List.mem_map.mp left
      obtain ⟨above, whole⟩ :=
        (List.mem_tails inner s.stack).mp (List.mem_of_mem_take within)
      rw [PathEvent.path, List.head?_reverse] at head
      apply rooted.stack outer
      rw [← whole, List.getLast?_append, head]
      rfl

theorem Rooted.push {s : ContextStack} (rooted : s.Rooted) (tp : TimePoint)
    {cctx : EnteredContext} (definable : s.stack = [] → ¬ cctx.NeedsParent) :
    (s.push tp cctx).Rooted := by
  have stack : ∀ outer, (cctx :: s.stack).getLast? = some outer →
      ¬ outer.NeedsParent := by
    intro outer last
    rw [List.getLast?_cons] at last
    cases below : s.stack.getLast? with
    | none =>
        rw [below] at last
        cases last
        exact definable (List.getLast?_eq_none_iff.mp below)
    | some other =>
        rw [below] at last
        cases last
        exact rooted.stack other below
  refine ⟨stack, ?_⟩
  intro event member outer head
  rcases List.mem_append.mp member with old | new
  · exact rooted.log event old outer head
  · rw [List.mem_singleton.mp new, PathEvent.path, List.head?_reverse] at head
    exact stack outer head

theorem enterOne_length (tp : TimePoint) {level : Nat} (positive : 0 < level)
    {s : ContextStack} (admissible : level ≤ s.stack.length + 1)
    (cctx : EnteredContext) :
    level ≤ (s.enterOne tp level cctx).stack.length := by
  rw [enterOne]
  split
  · next free =>
      rw [List.getElem?_eq_none_iff, List.length_reverse] at free
      rw [push, List.length_cons]
      omega
  · next stands =>
      have inside := (List.getElem?_eq_some_iff.mp stands).1
      rw [List.length_reverse] at inside
      split
      · rw [push, List.length_cons, leave_length tp positive]
        omega
      · omega

theorem Rooted.enterOne {s : ContextStack} (rooted : s.Rooted) (tp : TimePoint)
    {level : Nat} (positive : 0 < level)
    (admissible : level ≤ s.stack.length + 1) {cctx : EnteredContext}
    (definable : level = 1 → ¬ cctx.NeedsParent) :
    (s.enterOne tp level cctx).Rooted := by
  rw [ContextStack.enterOne]
  split
  · next free =>
      rw [List.getElem?_eq_none_iff, List.length_reverse] at free
      apply rooted.push
      intro empty
      rw [empty, List.length_nil] at admissible
      exact definable (by omega)
  · next stands =>
      split
      · apply (rooted.leave tp level).push
        intro empty
        have height := leave_length tp positive s
        have inside := (List.getElem?_eq_some_iff.mp stands).1
        rw [empty, List.length_nil] at height
        rw [List.length_reverse] at inside
        exact definable (by omega)
      · exact rooted

theorem Rooted.enter {s : ContextStack} (rooted : s.Rooted) (tp : TimePoint)
    {level : Nat} (positive : 0 < level)
    (admissible : level ≤ s.stack.length + 1) {cctxs : List EnteredContext}
    (definable : level = 1 → ∀ cctx, cctxs.head? = some cctx →
      ¬ cctx.NeedsParent) : (s.enter tp level cctxs).Rooted := by
  induction cctxs generalizing s level with
  | nil => exact rooted
  | cons cctx cctxs induction =>
      apply induction
        (rooted.enterOne tp positive admissible fun first =>
          definable first cctx rfl)
        level.succ_pos
      · exact Nat.succ_le_succ (enterOne_length tp positive admissible cctx)
      · intro first
        omega

theorem Rooted.sample {s : ContextStack} (rooted : s.Rooted)
    (inside : s.stack ≠ []) (tp : TimePoint) (addresses : List UInt64)
    (rest : UnwrittenWords) (unwindDistance : UInt64) :
    (s.sample tp addresses rest unwindDistance).Rooted where
  stack := rooted.stack
  log := by
    intro event member outer head
    rcases List.mem_append.mp member with old | new
    · exact rooted.log event old outer head
    · rw [List.mem_singleton.mp new, PathEvent.path,
        List.head?_append_of_ne_nil _ (by simpa using inside),
        List.head?_reverse] at head
      exact rooted.stack outer head

end ContextStack

namespace LocalCctxTree

theorem Represents.call_rooted {t : LocalCctxTree} {s : ContextStack}
    (represents : t.Represents s) (rooted : s.Rooted) {call : CctxCall}
    (allowed : call.Allowed t) (outermost : call.Rooted) :
    (s.call call).Rooted := by
  have height := represents.curLevel
  have inside : 1 ≤ t.curLevel → s.stack ≠ [] := by
    intro entered empty
    rw [empty, List.length_nil] at height
    omega
  have admissible := allowed.1
  cases call with
  | enter tp level ctx ctxs =>
      apply rooted.enter tp admissible.1 (height ▸ admissible.2)
      intro first cctx head
      cases head
      exact outermost first
  | leave tp level => exact rooted.leave tp level
  | sample tp numIps ips rest =>
      exact rooted.sample (inside admissible) tp _ rest numIps
  | sampleIp tp ip rest => exact rooted.sample (inside admissible) tp [ip] rest 2

theorem Represents.run_rooted {t : LocalCctxTree} {s : ContextStack}
    (represents : t.Represents s) (rooted : s.Rooted) {calls : List CctxCall}
    (allowed : AllowedRun LocalCctxTree.call (fun t call => call.Allowed t)
      t calls) (outermost : ∀ call ∈ calls, call.Rooted) :
    (calls.foldl ContextStack.call s).Rooted := by
  induction calls generalizing t s with
  | nil => exact rooted
  | cons call calls induction =>
      obtain ⟨next, called, there⟩ := represents.call allowed.1
      exact induction there
        (represents.call_rooted rooted allowed.1
          (outermost call List.mem_cons_self))
        (allowed.2 next called)
        (fun other member => outermost other (List.mem_cons_of_mem _ member))

theorem Represents.definable {t : LocalCctxTree} {s : ContextStack}
    (represents : t.Represents s) (rooted : s.Rooted) {cctx : EnteredContext}
    (needs : cctx.NeedsParent) : t.tree.children.find? cctx = none := by
  cases found : t.tree.children.find? cctx with
  | none => rfl
  | some child =>
      have present : (t.tree.valueAt [cctx]).isSome := by
        simp [Node.valueAt_cons, found]
      obtain ⟨event, member, inner, same⟩ :=
        represents.visited [cctx] (List.cons_ne_nil _ _) present
      rw [List.singleton_append] at same
      obtain ⟨outer, path, sameOuter, _, shape⟩ :=
        List.forall₂_cons_left_iff.mp same
      refine absurd ((EnteredContext.needsParent_congr sameOuter).mp needs) ?_
      exact rooted.log event member outer (by rw [shape, List.head?_cons])

end LocalCctxTree

/-- A location of a trace: the calls its clients made on its tree, after which
everything is left and the tree is finalized. -/
structure Recording where
  interruptGenerator : Nat
  calls : List CctxCall
  last : TimePoint
  running : LocalCctxTree
  ran : run LocalCctxTree.call (.init interruptGenerator) calls = .ok running
  allowed : AllowedRun LocalCctxTree.call (fun t call => call.Allowed t)
    (.init interruptGenerator) calls
  rooted : ∀ call ∈ calls, call.Rooted

namespace Recording

def tree (recording : Recording) : LocalCctxTree :=
  (recording.running.cctxLeave recording.last 1).finalize

/-- The events of the location, said without references. -/
def meaning (recording : Recording) : List PathEvent :=
  ((recording.calls.foldl ContextStack.call .init).leave recording.last 1).log

theorem exists_recording (interruptGenerator : Nat) {calls : List CctxCall}
    (last : TimePoint)
    (allowed : AllowedRun LocalCctxTree.call (fun t call => call.Allowed t)
      (.init interruptGenerator) calls)
    (rooted : ∀ call ∈ calls, call.Rooted) :
    ∃ recording : Recording, recording.calls = calls ∧
      recording.last = last ∧
        recording.interruptGenerator = interruptGenerator := by
  obtain ⟨running, ran, _⟩ :=
    (LocalCctxTree.Represents.init interruptGenerator).run allowed
  exact ⟨⟨interruptGenerator, calls, last, running, ran, allowed, rooted⟩,
    rfl, rfl, rfl⟩

theorem represents (recording : Recording) :
    (recording.running.cctxLeave recording.last 1).Represents
      ((recording.calls.foldl ContextStack.call .init).leave
        recording.last 1) := by
  obtain ⟨running, ran, there⟩ :=
    (LocalCctxTree.Represents.init recording.interruptGenerator).run
      recording.allowed
  cases ran.symm.trans recording.ran
  exact there.leave recording.last 1

theorem reads (recording : Recording) :
    List.Forall₂ (Reads (NodeAt recording.tree.tree)) recording.tree.writer
      recording.meaning :=
  recording.represents.events

theorem finalized (recording : Recording) : recording.tree.Finalized := by
  refine ⟨recording.interruptGenerator,
    recording.running.cctxLeave recording.last 1, ?_, rfl⟩
  apply (Reachable.of_run recording.ran).step
  exact (show LocalCctxTree.call recording.running
    (.leave recording.last 1) = _ from rfl)

theorem definable (recording : Recording) {cctx : EnteredContext}
    (needs : cctx.NeedsParent) :
    recording.tree.tree.children.find? cctx = none := by
  have rooted := (LocalCctxTree.Represents.init
    recording.interruptGenerator).run_rooted .init recording.allowed
      recording.rooted
  exact recording.represents.definable (rooted.leave recording.last 1) needs

/-- An event leads through the path of its own node, and through no other than
paths of the tree. -/
theorem visited_iff (recording : Recording) {path : List EnteredContext}
    (inside : path ≠ []) :
    Visited recording.meaning path ↔
      (recording.tree.tree.valueAt path).isSome := by
  constructor
  · intro visited
    obtain ⟨event, member, inner, same⟩ := visited
    obtain ⟨index, bound, at'⟩ := List.mem_iff_getElem.mp member
    have length := recording.reads.length_eq
    have read := (List.forall₂_iff_get.mp recording.reads).2 index
      (by omega) bound
    simp only [List.get_eq_getElem, at'] at read
    obtain ⟨ref, _, _, stored⟩ := read.named
    rw [← Node.valueAt_congr same] at stored
    exact Node.valueAt_isSome_of_append (by rw [stored]; rfl)
  · exact recording.represents.visited path inside

end Recording

/-- A reference of a location leads through its table to the definition at a
path of the global tree. -/
def LeadsTo {σ : Type u} {δ : Type v} (registry : CctxRegistry σ δ)
    (global : Forest EnteredContext δ) (table : MappingTable) (ref : Nat)
    (path : List EnteredContext) : Prop :=
  ∃ definition, global.valueAt path = some definition ∧
    table.slots[ref]? = some (registry.ref definition)

theorem CctxRegistry.ExactTable.leadsTo {σ : Type u} {δ : Type v}
    {registry : CctxRegistry σ δ} {global : Forest EnteredContext δ}
    {t : LocalCctxTree} {table : MappingTable}
    (exactTable : registry.ExactTable global t table) (ref : Nat)
    (path : List EnteredContext) (named : NodeAt t.tree ref path) :
    LeadsTo registry global table ref path := by
  obtain ⟨inside, stored⟩ := named
  cases path with
  | nil => exact absurd rfl inside
  | cons key path =>
      rw [Forest.valueAt_children] at stored
      exact exactTable.mapped (key :: path) ref stored

namespace Recording

theorem meaning_eq_nil (recording : Recording)
    (empty : recording.tree.numCctx = 0) : recording.meaning = [] := by
  cases shape : recording.meaning with
  | nil => rfl
  | cons event rest =>
      have reads := recording.reads
      rw [shape] at reads
      obtain ⟨first, _, read, _, _⟩ := List.forall₂_cons_right_iff.mp reads
      obtain ⟨ref, _, inside, stored⟩ := read.named
      have free := CctxRegistry.valueAt_eq_none_of_numCctx recording.finalized
        empty event.path
      cases path : event.path with
      | nil => exact absurd path inside
      | cons key inner =>
          rw [path, Forest.valueAt_children, ← path, free] at stored
          cases stored

/-- The trees of all locations are merged, and every event of every location,
looked up in the table of the location, is about exactly the contexts its
client asked for.  The global tree holds these contexts and no others. -/
theorem finalizeTrees_meaning {σ : Type u} {δ : Type v}
    (registry : CctxRegistry σ δ) (recordings : List Recording) (state : σ) :
    ∃ tables merged next,
      registry.finalizeTrees (recordings.map tree) .nil state =
        .ok (tables, merged, next) ∧
      List.Forall₂ (fun (recording : Recording) table =>
          List.Forall₂ (Reads (LeadsTo registry merged table))
            recording.tree.writer recording.meaning)
        (recordings.filter fun recording => 0 < recording.tree.numCctx)
        tables ∧
      (∀ recording ∈ recordings, recording.tree.numCctx = 0 →
        recording.tree.writer = []) ∧
      ∀ path, path ≠ [] → ((merged.valueAt path).isSome ↔
        ∃ recording ∈ recordings, Visited recording.meaning path) := by
  have allFinalized : ∀ t ∈ recordings.map tree, t.Finalized := by
    intro t member
    obtain ⟨recording, _, rfl⟩ := List.mem_map.mp member
    exact recording.finalized
  have allDefinable : ∀ t ∈ recordings.map tree, ∀ cctx,
      EnteredContext.NeedsParent cctx → (t.tree.children.find? cctx).isSome →
        ((Forest.nil : Forest EnteredContext δ).find? cctx).isSome := by
    intro t member cctx needs present
    obtain ⟨recording, _, rfl⟩ := List.mem_map.mp member
    rw [recording.definable needs] at present
    cases present
  obtain ⟨tables, merged, next, finished, exactTables, paths⟩ :=
    registry.finalizeTrees_spec allFinalized allDefinable state
  refine ⟨tables, merged, next, finished, ?_, ?_, ?_⟩
  · rw [List.filter_map, List.forall₂_map_left_iff] at exactTables
    exact exactTables.imp fun recording table exactTable =>
      recording.reads.imp fun _ _ read => read.mono exactTable.leadsTo
  · intro recording _ empty
    have length := recording.reads.length_eq
    rw [recording.meaning_eq_nil empty] at length
    exact List.length_eq_zero_iff.mp length
  · intro path inside
    rw [paths]
    have none' : ¬ ((Forest.nil : Forest EnteredContext δ).valueAt path).isSome := by
      simp
    constructor
    · intro holds
      obtain ⟨t, member, present⟩ := holds.resolve_left none'
      obtain ⟨recording, known, rfl⟩ := List.mem_map.mp member
      refine ⟨recording, known, (recording.visited_iff inside).mpr ?_⟩
      cases path with
      | nil => exact absurd rfl inside
      | cons key path =>
          rw [Forest.valueAt_children]
          exact present
    · intro holds
      obtain ⟨recording, known, visited⟩ := holds
      refine .inr ⟨recording.tree, List.mem_map_of_mem known, ?_⟩
      have present := (recording.visited_iff inside).mp visited
      cases path with
      | nil => exact absurd rfl inside
      | cons key path =>
          rw [Forest.valueAt_children] at present
          exact present

end Recording

end Lo2s
