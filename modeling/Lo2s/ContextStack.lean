import Lo2s.CallChain
import Lo2s.CctxBalance

/-!
# The calls on a location as moves of a stack

What the clients of a local tree mean can be said without a tree and without
references: there is a stack of calling contexts, and every event is about the
contexts from the outermost one to the one it names.  The local tree refines
this stack, and holds no context that no event leads through.
-/

namespace Lo2s

open Foundation KeyOrder

/-- `operator!=` reads nothing of its left side but what `operator==` compares. -/
theorem EnteredContext.differs_congr {left right : EnteredContext}
    (equivalent : Equivalent left right) (other : EnteredContext) :
    left.differs other = right.differs other := by
  have sameType := type_eq_of_equivalent equivalent
  have sameMember : left.context.memberRank = right.context.memberRank :=
    congrArg Prod.snd (equivalent_iff_rank.mp equivalent)
  have sameNe : left.context.memberNe other.context =
      right.context.memberNe other.context := by
    unfold CallingContext.memberNe
    unfold CallingContext.memberRank at sameMember
    rw [sameType] at sameMember ⊢
    cases kind : right.context.type <;>
      simp_all [OMPTCctx.rank, OMPTCctx.ne, Int64.toInt_inj, UInt64.toNat_inj]
  rw [Bool.eq_iff_iff, differs_iff, differs_iff, sameType, sameNe]

/-- A path that agrees with one that ends in a context ends in its like. -/
theorem equivalentPaths_concat {path outer : List EnteredContext}
    {cctx : EnteredContext} (same : EquivalentPaths path (outer ++ [cctx])) :
    ∃ earlier key, path = earlier ++ [key] ∧ EquivalentPaths earlier outer ∧
      Equivalent key cctx := by
  have reversed := List.forall₂_reverse_iff.mpr same
  rw [List.reverse_append, List.reverse_singleton] at reversed
  obtain ⟨key, earlier, sameKey, sameOuter, shape⟩ :=
    List.forall₂_cons_right_iff.mp reversed
  refine ⟨earlier.reverse, key, ?_, ?_, sameKey⟩
  · rw [← List.reverse_reverse path, shape, List.reverse_cons]
  · apply List.forall₂_reverse_iff.mp
    rw [List.reverse_reverse]
    exact sameOuter

/-- A calling-context event by the contexts that lead to the one it is about,
the outermost first. -/
inductive PathEvent where
  | enter (tp : TimePoint) (path : List EnteredContext)
  | leave (tp : TimePoint) (path : List EnteredContext)
  | sample (tp : TimePoint) (path : List EnteredContext)
      (unwindDistance : UInt64)

def PathEvent.path : PathEvent → List EnteredContext
  | .enter _ path => path
  | .leave _ path => path
  | .sample _ path _ => path

/-- An event of a location says what an event by path does, where `names` tells
which path a reference stands for. -/
inductive Reads (names : Nat → List EnteredContext → Prop) :
    TraceEvent → PathEvent → Prop where
  | enter {tp : TimePoint} {ref : Nat} {path : List EnteredContext} :
      names ref path →
      Reads names (.callingContextEnter tp ref 2) (.enter tp path)
  | leave {tp : TimePoint} {ref : Nat} {path : List EnteredContext} :
      names ref path → Reads names (.callingContextLeave tp ref) (.leave tp path)
  | sample {tp : TimePoint} {ref : Nat} {path : List EnteredContext}
      {unwindDistance : UInt64} {interruptGenerator : Nat} :
      names ref path →
      Reads names (.callingContextSample tp ref unwindDistance
        interruptGenerator) (.sample tp path unwindDistance)

theorem Reads.mono {names others : Nat → List EnteredContext → Prop}
    (extends' : ∀ ref path, names ref path → others ref path)
    {event : TraceEvent} {meaning : PathEvent}
    (reads : Reads names event meaning) : Reads others event meaning := by
  cases reads with
  | enter named => exact .enter (extends' _ _ named)
  | leave named => exact .leave (extends' _ _ named)
  | sample named => exact .sample (extends' _ _ named)

/-- The reference an event carries stands for the path of its meaning. -/
theorem Reads.named {names : Nat → List EnteredContext → Prop}
    {event : TraceEvent} {meaning : PathEvent}
    (reads : Reads names event meaning) :
    ∃ ref, event.cctxRef? = some ref ∧ names ref meaning.path := by
  cases reads with
  | enter named => exact ⟨_, rfl, named⟩
  | leave named => exact ⟨_, rfl, named⟩
  | sample named => exact ⟨_, rfl, named⟩

/-- The contexts entered and not yet left, the innermost first, and the events
so far. -/
structure ContextStack where
  stack : List EnteredContext
  log : List PathEvent

namespace ContextStack

def init : ContextStack := ⟨[], []⟩

/-- How many contexts stand at a level or above it. -/
def toLeave (level : Nat) (s : ContextStack) : Nat :=
  if level = 0 then 0 else s.stack.length + 1 - level

/-- Leave them, the innermost first. -/
def leave (tp : TimePoint) (level : Nat) (s : ContextStack) : ContextStack where
  stack := s.stack.drop (s.toLeave level)
  log := s.log ++ (s.stack.tails.take (s.toLeave level)).map fun inner =>
    .leave tp inner.reverse

def push (tp : TimePoint) (cctx : EnteredContext) (s : ContextStack) :
    ContextStack where
  stack := cctx :: s.stack
  log := s.log ++ [.enter tp (cctx :: s.stack).reverse]

/-- Enter one context at a level, in place of what stands there unless it
passes for the same. -/
def enterOne (tp : TimePoint) (level : Nat) (cctx : EnteredContext)
    (s : ContextStack) : ContextStack :=
  match s.stack.reverse[level - 1]? with
  | none => s.push tp cctx
  | some old => if old.differs cctx then (s.leave tp level).push tp cctx else s

def enter (tp : TimePoint) : Nat → List EnteredContext → ContextStack →
    ContextStack
  | _, [], s => s
  | level, cctx :: cctxs, s => (s.enterOne tp level cctx).enter tp (level + 1) cctxs

/-- Sample a chain of addresses inside the innermost context. -/
def sample (tp : TimePoint) (addresses : List UInt64) (rest : UnwrittenWords)
    (unwindDistance : UInt64) (s : ContextStack) : ContextStack :=
  { s with log := s.log ++
      [.sample tp (s.stack.reverse ++ LocalCctxTree.chainPath addresses rest)
        unwindDistance] }

/-- What a call on the local tree means. -/
def call (s : ContextStack) : CctxCall → ContextStack
  | .enter tp level ctx ctxs => s.enter tp level (ctx :: ctxs)
  | .leave tp level => s.leave tp level
  | .sample tp numIps ips rest =>
      s.sample tp (LocalCctxTree.callChain ips) rest numIps
  | .sampleIp tp ip rest => s.sample tp [ip] rest 2

end ContextStack

/-- The reference of a node other than the root stands for the path to it. -/
def NodeAt (tree : Node EnteredContext Nat) (ref : Nat)
    (path : List EnteredContext) : Prop :=
  path ≠ [] ∧ tree.valueAt path = some ref

theorem NodeAt.mono {old new : Node EnteredContext Nat} (grows : Grows old new)
    (ref : Nat) (path : List EnteredContext) (named : NodeAt old ref path) :
    NodeAt new ref path :=
  ⟨named.1, grows path ref named.2⟩

theorem NodeAt.congr {tree : Node EnteredContext Nat} {ref : Nat}
    {left right : List EnteredContext} (same : EquivalentPaths left right)
    (named : NodeAt tree ref left) : NodeAt tree ref right := by
  obtain ⟨inside, stored⟩ := named
  refine ⟨?_, by rw [← Node.valueAt_congr same, stored]⟩
  rintro rfl
  cases same
  exact inside rfl

/-- A path that an event leads through. -/
def Visited (log : List PathEvent) (path : List EnteredContext) : Prop :=
  ∃ event ∈ log, ∃ inner, EquivalentPaths (path ++ inner) event.path

theorem Visited.append {log : List PathEvent} {path : List EnteredContext}
    (visited : Visited log path) (more : List PathEvent) :
    Visited (log ++ more) path := by
  obtain ⟨event, member, inner, same⟩ := visited
  exact ⟨event, List.mem_append_left _ member, inner, same⟩

namespace LocalCctxTree

/-- The local tree and the stack are in step. -/
structure Represents (t : LocalCctxTree) (s : ContextStack) : Prop where
  invariant : t.Invariant
  stack : List.Forall₂
    (fun (node : NodePtr) (inner : List EnteredContext) =>
      EquivalentPaths node.path inner.reverse) t.cur s.stack.tails
  events : List.Forall₂ (Reads (NodeAt t.tree)) t.writer s.log
  visited : ∀ path, path ≠ [] → (t.tree.valueAt path).isSome →
    Visited s.log path

theorem Represents.init (interruptGenerator : Nat) :
    (init interruptGenerator).Represents .init where
  invariant := .init interruptGenerator
  stack := .cons .nil .nil
  events := .nil
  visited := by
    intro path inside present
    rw [LocalCctxTree.init, Node.valueAt_leaf, if_neg inside] at present
    cases present

theorem Represents.length {t : LocalCctxTree} {s : ContextStack}
    (represents : t.Represents s) : t.cur.length = s.stack.length + 1 := by
  rw [represents.stack.length_eq, List.length_tails]

theorem Represents.curLevel {t : LocalCctxTree} {s : ContextStack}
    (represents : t.Represents s) : t.curLevel = s.stack.length := by
  rw [LocalCctxTree.curLevel, represents.length, Nat.add_sub_cancel]

theorem Represents.top {t : LocalCctxTree} {s : ContextStack}
    (represents : t.Represents s) {back : NodePtr} {below : List NodePtr}
    (top : t.cur = back :: below) :
    EquivalentPaths back.path s.stack.reverse := by
  have stack := represents.stack
  rw [top] at stack
  cases shape : s.stack with
  | nil =>
      rw [shape, List.tails] at stack
      exact (List.forall₂_cons.mp stack).1
  | cons cctx outer =>
      rw [shape, List.tails] at stack
      exact (List.forall₂_cons.mp stack).1

/-- Each pointer above the root is the node of the contexts it stands for. -/
theorem Represents.nodes {t : LocalCctxTree} {s : ContextStack}
    (represents : t.Represents s) {count : Nat}
    (above : count ≤ s.stack.length) :
    List.Forall₂ (fun (node : NodePtr) inner =>
      NodeAt t.tree node.ref inner.reverse)
      (t.cur.take count) (s.stack.tails.take count) := by
  have known : ∀ node ∈ t.cur.take count, NodeAt t.tree node.ref node.path := by
    intro node member
    have inside : node ∈ t.cur.dropLast := by
      rw [List.dropLast_eq_take]
      apply (List.take_prefix_take_left _).subset member
      rw [represents.length]
      exact above
    refine ⟨represents.invariant.stack.path_ne_nil inside, ?_⟩
    exact represents.invariant.stack.valueAt
      represents.invariant.tree.rootRef (List.dropLast_subset _ inside)
  have both := (List.forall₂_and_left _ _).mpr
    ⟨known, List.forall₂_take count represents.stack⟩
  exact both.imp fun _ _ holds => holds.1.congr holds.2

theorem drop_tails {α : Type u} (list : List α) {count : Nat}
    (inside : count ≤ list.length) :
    list.tails.drop count = (list.drop count).tails := by
  induction count generalizing list with
  | zero => rfl
  | succ count induction =>
      cases list with
      | nil => simp at inside
      | cons head list => exact induction list (by simpa using inside)

theorem Represents.leave {t : LocalCctxTree} {s : ContextStack}
    (represents : t.Represents s) (tp : TimePoint) (level : Nat) :
    (t.cctxLeave tp level).Represents (s.leave tp level) := by
  cases level with
  | zero =>
      have same : s.leave tp 0 = s := by
        simp [ContextStack.leave, ContextStack.toLeave]
      rw [cctxLeave_zero, same]
      exact represents
  | succ level =>
      have count : s.toLeave (level + 1) = t.cur.length - (level + 1) := by
        rw [ContextStack.toLeave, if_neg level.succ_ne_zero, represents.length]
      have above : t.cur.length - (level + 1) ≤ s.stack.length := by
        have length := represents.length
        omega
      refine
        { invariant := represents.invariant.cctxLeave tp _
          stack := ?_, events := ?_, visited := ?_ }
      · rw [cctxLeave_cur tp level.succ_pos, ContextStack.leave, count,
          ← drop_tails _ above]
        exact List.forall₂_drop _ represents.stack
      · rw [cctxLeave_writer tp level.succ_pos, ContextStack.leave, count]
        apply List.rel_append represents.events
        rw [List.forall₂_map_left_iff, List.forall₂_map_right_iff]
        exact (represents.nodes above).imp fun _ _ named => .leave named
      · intro path inside present
        exact (represents.visited path inside present).append _

theorem createCctxNode_new {t : LocalCctxTree}
    (tree : TreeInvariant t.tree t.nextCctxRef) (cctx : EnteredContext)
    {node : NodePtr} (valid : t.tree.valueAt node.path = some node.ref)
    {query : List EnteredContext}
    (present : ((t.createCctxNode cctx node).1.tree.valueAt query).isSome) :
    (t.tree.valueAt query).isSome ∨
      EquivalentPaths query (t.createCctxNode cctx node).2.path := by
  obtain ⟨ref, stored⟩ := Option.isSome_iff_exists.mp present
  have parent : (t.tree.valueAt node.path).isSome := by simp [valid]
  rcases (Node.valueAt_emplaceAt_iff parent cctx _ query ref).mp stored with
    old | ⟨_, here, _⟩
  · left
    rw [old]
    rfl
  · right
    obtain ⟨key, path, sameKey⟩ := (createCctxNode_spec tree cctx valid).key
    rw [path]
    have keys : EquivalentPaths (node.path ++ [cctx]) (node.path ++ [key]) :=
      List.rel_append (EquivalentPaths.refl _) (.cons sameKey.symm .nil)
    exact EquivalentPaths.trans (EquivalentPaths.symm here) keys

theorem sampleLoop_new {size : Nat} (ips : Fin size → UInt64)
    (rest : UnwrittenWords) {index : Nat} (inside : index < size)
    {t : LocalCctxTree} (tree : TreeInvariant t.tree t.nextCctxRef)
    {node : NodePtr} (valid : t.tree.valueAt node.path = some node.ref)
    {result : LocalCctxTree × NodePtr}
    (ended : sampleLoop ips rest index node t = .ok result)
    {query : List EnteredContext}
    (present : (result.1.tree.valueAt query).isSome) :
    (t.tree.valueAt query).isSome ∨
      ∃ inner, EquivalentPaths (query ++ inner) result.2.path := by
  induction index generalizing t node with
  | zero =>
      cases ended
      exact .inl present
  | succ index induction =>
      have further : index < size := by omega
      rw [sampleLoop_succ ips rest inside] at ended
      by_cases marker : IsMarker (ips ⟨index + 1, inside⟩)
      · rw [if_pos marker] at ended
        exact induction further tree valid ended
      · rw [if_neg marker] at ended
        have created := createCctxNode_spec tree
          (.sample (ips ⟨index + 1, inside⟩) rest) valid
        obtain ⟨chain, again, chained⟩ :=
          sampleLoop_spec ips rest further created.tree created.stored
        cases again.symm.trans ended
        rcases induction further created.tree created.stored ended with
          known | below
        · rcases createCctxNode_new tree _ valid known with old | here
          · exact .inl old
          · right
            obtain ⟨suffix, path⟩ := chained.below
            exact ⟨suffix, path ▸ List.rel_append here (EquivalentPaths.refl _)⟩
        · exact .inr below

theorem Represents.push {t : LocalCctxTree} {s : ContextStack}
    (represents : t.Represents s) (tp : TimePoint) (cctx : EnteredContext) :
    ∃ result, t.pushCctx tp cctx = .ok result ∧
      result.Represents (s.push tp cctx) := by
  have invariant := represents.invariant
  cases top : t.cur with
  | nil => exact absurd top invariant.cur_ne_nil
  | cons back below =>
      have valid : t.tree.valueAt back.path = some back.ref :=
        invariant.stack.valueAt invariant.tree.rootRef (by simp [top])
      have created := createCctxNode_spec invariant.tree cctx valid
      obtain ⟨key, path, sameKey⟩ := created.key
      have here : EquivalentPaths (t.createCctxNode cctx back).2.path
          (cctx :: s.stack).reverse := by
        rw [path, List.reverse_cons]
        exact List.rel_append (represents.top top) (.cons sameKey .nil)
      obtain ⟨result, pushed, spec⟩ := pushCctx_spec invariant tp cctx
      refine ⟨result, pushed, ?_⟩
      have shape : t.pushCctx tp cctx =
          .ok (({ (t.createCctxNode cctx back).1 with
            cur := (t.createCctxNode cctx back).2 ::
              (t.createCctxNode cctx back).1.cur } : LocalCctxTree).write
            (.callingContextEnter tp (t.createCctxNode cctx back).2.ref 2)) := by
        rw [pushCctx, top]
      rw [shape, Except.ok.injEq] at pushed
      subst pushed
      refine
        { invariant := spec.invariant
          stack := ?_, events := ?_, visited := ?_ }
      · rw [ContextStack.push, List.tails]
        apply List.forall₂_cons.mpr
        refine ⟨here, ?_⟩
        rw [created.cur]
        exact represents.stack
      · rw [write, ContextStack.push, created.writer]
        apply List.rel_append
        · exact represents.events.imp fun _ _ reads =>
            reads.mono (NodeAt.mono created.grows)
        · refine .cons (.enter (NodeAt.congr here ⟨?_, created.stored⟩)) .nil
          simp [path]
      · intro query inside present
        rcases createCctxNode_new invariant.tree cctx valid present with
          old | new
        · exact (represents.visited query inside old).append _
        · refine ⟨_, List.mem_append_right _ List.mem_cons_self, [], ?_⟩
          rw [List.append_nil]
          exact EquivalentPaths.trans new here

theorem Represents.entryAt {t : LocalCctxTree} {s : ContextStack}
    (represents : t.Represents s) {level : Nat} (positive : 0 < level)
    (present : level ≤ s.stack.length) :
    ∃ node old cctx, t.entryAt level = some node ∧ node.first = some old ∧
      s.stack.reverse[level - 1]? = some cctx ∧ Equivalent old cctx := by
  have length := represents.length
  have tails := List.length_tails s.stack
  have inside : s.stack.length - level < s.stack.length := by omega
  have same := (List.forall₂_iff_get.mp represents.stack).2
    (s.stack.length - level) (by omega) (by omega)
  simp only [List.get_eq_getElem, List.getElem_tails] at same
  rw [List.drop_eq_getElem_cons inside, List.reverse_cons] at same
  obtain ⟨earlier, key, path, _, sameKey⟩ := equivalentPaths_concat same
  refine ⟨t.cur[s.stack.length - level], key,
    s.stack[s.stack.length - level], ?_, ?_, ?_, sameKey⟩
  · rw [LocalCctxTree.entryAt, List.getElem?_reverse (by omega)]
    apply List.getElem?_eq_some_iff.mpr
    exact ⟨by omega, by congr 1; omega⟩
  · rw [NodePtr.first, path, List.getLast?_concat]
  · rw [List.getElem?_reverse (by omega)]
    apply List.getElem?_eq_some_iff.mpr
    exact ⟨by omega, by congr 1; omega⟩

theorem Represents.enterOne {t : LocalCctxTree} {s : ContextStack}
    (represents : t.Represents s) (tp : TimePoint) {level : Nat}
    (positive : 0 < level) (admissible : level ≤ t.curLevel + 1)
    (cctx : EnteredContext) :
    ∃ result, t.handleEnterCctxNode tp level cctx = .ok result ∧
      result.Represents (s.enterOne tp level cctx) := by
  have height := represents.curLevel
  by_cases fresh : level = t.curLevel + 1
  · have free : s.stack.reverse[level - 1]? = none := by
      rw [List.getElem?_eq_none_iff, List.length_reverse]
      omega
    rw [handleEnter_push tp fresh, ContextStack.enterOne, free]
    exact represents.push tp cctx
  · have present : level ≤ t.curLevel := by omega
    obtain ⟨node, old, known, entry, first, stands, same⟩ :=
      represents.entryAt positive (by omega)
    rw [handleEnter_replace tp positive present (by rw [entry]; exact first),
      ContextStack.enterOne, stands, EnteredContext.differs_congr same]
    by_cases differs : known.differs cctx = true
    · simp only [differs, if_true]
      exact (represents.leave tp level).push tp cctx
    · simp only [differs]
      exact ⟨t, rfl, represents⟩

theorem Represents.enter {t : LocalCctxTree} {s : ContextStack}
    (represents : t.Represents s) (tp : TimePoint) {level : Nat}
    (positive : 0 < level) (admissible : level ≤ t.curLevel + 1)
    (cctxs : List EnteredContext) :
    ∃ result, t.cctxEnter tp level cctxs = .ok result ∧
      result.Represents (s.enter tp level cctxs) := by
  induction cctxs generalizing t s level with
  | nil => exact ⟨t, rfl, represents⟩
  | cons cctx cctxs induction =>
      obtain ⟨middle, entered, there⟩ :=
        represents.enterOne tp positive admissible cctx
      obtain ⟨same, again, _, height, _⟩ :=
        handleEnter_keeps represents.invariant tp positive admissible cctx
      cases again.symm.trans entered
      obtain ⟨result, finished, holds⟩ :=
        induction there level.succ_pos (by omega)
      exact ⟨result, by rw [cctxEnter, entered]; exact finished, holds⟩

theorem Represents.sampled {t : LocalCctxTree} {s : ContextStack}
    (represents : t.Represents s) (inside : s.stack ≠ []) {back : NodePtr}
    {below : List NodePtr} (top : t.cur = back :: below)
    {result : LocalCctxTree × NodePtr} (chained : Chained t back result)
    (new : ∀ query, (result.1.tree.valueAt query).isSome →
      (t.tree.valueAt query).isSome ∨
        ∃ inner, EquivalentPaths (query ++ inner) result.2.path)
    {addresses : List UInt64} {rest : UnwrittenWords}
    (path : ∃ suffix, result.2.path = back.path ++ suffix ∧
      EquivalentPaths suffix (chainPath addresses rest))
    (tp : TimePoint) (unwindDistance : UInt64) :
    (result.1.write (.callingContextSample tp result.2.ref unwindDistance
      result.1.interruptGenerator)).Represents
        (s.sample tp addresses rest unwindDistance) := by
  obtain ⟨suffix, shape, chain⟩ := path
  have here : EquivalentPaths result.2.path
      (s.stack.reverse ++ chainPath addresses rest) := by
    rw [shape]
    exact List.rel_append (represents.top top) chain
  have nonempty : result.2.path ≠ [] := by
    intro empty
    rw [empty] at here
    cases reversed : s.stack.reverse with
    | nil => exact inside (List.reverse_eq_nil_iff.mp reversed)
    | cons outer inner =>
        rw [reversed] at here
        cases here
  refine
    { invariant :=
        (chained.sampled represents.invariant top tp unwindDistance).invariant
      stack := ?_, events := ?_, visited := ?_ }
  · rw [write, chained.cur]
    exact represents.stack
  · rw [write, ContextStack.sample, chained.writer]
    apply List.rel_append
    · exact represents.events.imp fun _ _ reads =>
        reads.mono (NodeAt.mono chained.grows)
    · exact .cons (.sample (NodeAt.congr here ⟨nonempty, chained.stored⟩)) .nil
  · intro query known present
    rcases new query present with old | ⟨inner, leads⟩
    · exact (represents.visited query known old).append _
    · exact ⟨_, List.mem_append_right _ List.mem_cons_self, inner,
        EquivalentPaths.trans leads here⟩

/-- Every call that is allowed is answered, and keeps the two in step. -/
theorem Represents.call {t : LocalCctxTree} {s : ContextStack}
    (represents : t.Represents s) {call : CctxCall} (allowed : call.Allowed t) :
    ∃ next, t.call call = .ok next ∧ next.Represents (s.call call) := by
  have tree := represents.invariant.tree
  have valid : ∀ {back below}, t.cur = back :: below →
      t.tree.valueAt back.path = some back.ref := by
    intro back below top
    exact represents.invariant.stack.valueAt tree.rootRef (by simp [top])
  have inside : 1 ≤ t.curLevel → s.stack ≠ [] := by
    intro entered empty
    have height := represents.curLevel
    rw [empty, List.length_nil] at height
    omega
  obtain ⟨admissible, hasIp⟩ := allowed
  cases call with
  | enter tp level ctx ctxs =>
      exact represents.enter tp admissible.1 admissible.2 (ctx :: ctxs)
  | leave tp level => exact ⟨_, rfl, represents.leave tp level⟩
  | sample tp numIps ips rest =>
      cases top : t.cur with
      | nil => exact absurd top represents.invariant.cur_ne_nil
      | cons back below =>
          have within := toNat_pred_lt hasIp
          obtain ⟨chain, ended, chained⟩ :=
            sampleLoop_spec ips rest within tree (valid top)
          refine ⟨_, cctxSample_eq top ended tp, ?_⟩
          exact represents.sampled (inside admissible) top chained
            (fun _ => sampleLoop_new ips rest within tree (valid top) ended)
            (sampleLoop_callChain hasIp ips rest tree (valid top) ended) tp
            numIps
  | sampleIp tp ip rest =>
      cases top : t.cur with
      | nil => exact absurd top represents.invariant.cur_ne_nil
      | cons back below =>
          have created := createCctxNode_spec tree (.sample ip rest) (valid top)
          obtain ⟨key, path, same⟩ := created.key
          refine ⟨_, by rw [LocalCctxTree.call, cctxSampleIp, top], ?_⟩
          have chain : ∃ suffix, (t.createCctxNode (.sample ip rest) back).2.path =
              back.path ++ suffix ∧
                EquivalentPaths suffix (chainPath [ip] rest) :=
            ⟨[key], path, .cons same .nil⟩
          apply represents.sampled (inside admissible) top created.chained ?_
            chain tp 2
          intro query present
          rcases createCctxNode_new tree _ (valid top) present with old | new
          · exact .inl old
          · exact .inr ⟨[], by rw [List.append_nil]; exact new⟩

theorem Represents.run {t : LocalCctxTree} {s : ContextStack}
    (represents : t.Represents s) {calls : List CctxCall}
    (allowed : AllowedRun LocalCctxTree.call (fun t call => call.Allowed t)
      t calls) :
    ∃ final, Foundation.run LocalCctxTree.call t calls = .ok final ∧
      final.Represents (calls.foldl ContextStack.call s) := by
  induction calls generalizing t s with
  | nil => exact ⟨t, rfl, represents⟩
  | cons call calls induction =>
      obtain ⟨next, called, there⟩ := represents.call allowed.1
      obtain ⟨final, finished, holds⟩ :=
        induction there (allowed.2 next called)
      exact ⟨final, by rw [Foundation.run, called]; exact finished, holds⟩

end LocalCctxTree

end Lo2s
