import Lo2s.Foundation.Run
import Lo2s.LocalCctxTree

/-!
# What every operation of the tree preserves

The references of the non-root nodes are exactly the numbers handed out so far,
and the call stack is a path of the tree that starts at its root.  There is one
lemma for each operation of `LocalCctxTree`; it says everything the operation
does to the tree, the stack and the written events.
-/

namespace Lo2s

open Foundation KeyOrder

/-- The nodes of a tree and the counter of references agree. -/
structure TreeInvariant (tree : Node EnteredContext Nat) (next : Nat) :
    Prop where
  rootRef : tree.value = 0
  distinct : tree.children.Distinct
  refs : tree.values.Perm (List.range next)

/-- Every node of the old tree is in the new one, under its reference. -/
def Grows (old new : Node EnteredContext Nat) : Prop :=
  ∀ path ref, old.valueAt path = some ref → new.valueAt path = some ref

theorem Grows.refl (tree : Node EnteredContext Nat) : Grows tree tree :=
  fun _ _ known => known

theorem Grows.trans {first second third : Node EnteredContext Nat}
    (left : Grows first second) (right : Grows second third) :
    Grows first third :=
  fun path ref known => right path ref (left path ref known)

/-- The stack, top first, is a path down from the root. -/
def IsPathStack (tree : Node EnteredContext Nat) : List NodePtr → Prop
  | [] => False
  | [bottom] => bottom = .root
  | node :: below :: rest =>
      (∃ key, node.path = below.path ++ [key]) ∧
        tree.valueAt node.path = some node.ref ∧
          IsPathStack tree (below :: rest)

theorem IsPathStack.mono {old new : Node EnteredContext Nat}
    (grows : Grows old new) {stack : List NodePtr}
    (path : IsPathStack old stack) : IsPathStack new stack := by
  induction stack with
  | nil => exact path
  | cons node rest induction =>
      cases rest with
      | nil => exact path
      | cons below rest =>
          exact ⟨path.1, grows _ _ path.2.1, induction path.2.2⟩

theorem IsPathStack.drop {tree : Node EnteredContext Nat}
    {stack : List NodePtr} (path : IsPathStack tree stack) {count : Nat}
    (rootStays : count < stack.length) :
    IsPathStack tree (stack.drop count) := by
  induction count generalizing stack with
  | zero => exact path
  | succ count induction =>
      cases stack with
      | nil => exact path.elim
      | cons node rest =>
          cases rest with
          | nil => simp at rootStays
          | cons below rest =>
              exact induction path.2.2 (by simpa using rootStays)

/-- Each pointer of the stack leads to a node with its reference. -/
theorem IsPathStack.valueAt {tree : Node EnteredContext Nat}
    (rootRef : tree.value = 0) {stack : List NodePtr}
    (path : IsPathStack tree stack) {node : NodePtr} (member : node ∈ stack) :
    tree.valueAt node.path = some node.ref := by
  induction stack with
  | nil => exact path.elim
  | cons top rest induction =>
      cases rest with
      | nil =>
          rw [List.mem_singleton.mp member, show top = NodePtr.root from path]
          simp [NodePtr.root, rootRef]
      | cons below rest =>
          rcases List.mem_cons.mp member with same | inside
          · rw [same]
            exact path.2.1
          · exact induction path.2.2 inside

theorem IsPathStack.first {tree : Node EnteredContext Nat}
    {node below : NodePtr} {rest : List NodePtr}
    (path : IsPathStack tree (node :: below :: rest)) :
    ∃ key, node.first = some key := by
  obtain ⟨⟨key, extends'⟩, _, _⟩ := path
  exact ⟨key, by simp [NodePtr.first, extends']⟩

namespace LocalCctxTree

/-- What holds of every tree between two operations. -/
structure Invariant (t : LocalCctxTree) : Prop where
  tree : TreeInvariant t.tree t.nextCctxRef
  stack : IsPathStack t.tree t.cur

theorem Invariant.init (interruptGenerator : Nat) :
    (init interruptGenerator).Invariant where
  tree := ⟨rfl, trivial, List.Perm.refl []⟩
  stack := rfl

theorem Invariant.cur_ne_nil {t : LocalCctxTree} (invariant : t.Invariant) :
    t.cur ≠ [] := by
  intro empty
  have stack := invariant.stack
  rw [empty] at stack
  exact stack

theorem Invariant.cur_length {t : LocalCctxTree} (invariant : t.Invariant) :
    t.cur.length = t.curLevel + 1 := by
  have nonempty := List.length_pos_of_ne_nil invariant.cur_ne_nil
  unfold curLevel
  omega

/-- The effect of `createCctxNode`: the tree may have grown by the child, and
nothing else has changed. -/
structure Created (t : LocalCctxTree) (cctx : EnteredContext) (node : NodePtr)
    (result : LocalCctxTree × NodePtr) : Prop where
  tree : TreeInvariant result.1.tree result.1.nextCctxRef
  grows : Grows t.tree result.1.tree
  key : ∃ key, result.2.path = node.path ++ [key] ∧ Equivalent key cctx
  stored : result.1.tree.valueAt result.2.path = some result.2.ref
  cur : result.1.cur = t.cur
  writer : result.1.writer = t.writer
  interruptGenerator :
    result.1.interruptGenerator = t.interruptGenerator

theorem createCctxNode_spec {t : LocalCctxTree}
    (tree : TreeInvariant t.tree t.nextCctxRef) (cctx : EnteredContext)
    {node : NodePtr} (valid : t.tree.valueAt node.path = some node.ref) :
    Created t cctx node (t.createCctxNode cctx node) := by
  have present : (t.tree.valueAt node.path).isSome := by simp [valid]
  obtain ⟨storedKey, isNew, storedRef⟩ :=
    Node.emplaceAt_result present cctx t.nextCctxRef
  have values := Node.values_emplaceAt present cctx t.nextCctxRef
  have lookup := Node.valueAt_emplaceAt_iff present cctx t.nextCctxRef
  refine
    { tree := ⟨?_, Node.distinct_emplaceAt tree.distinct _ _ _, ?_⟩
      grows := fun path ref known => (lookup path ref).mpr (.inl known)
      key := ⟨_, rfl, storedKey⟩
      stored := ?_
      cur := rfl
      writer := rfl
      interruptGenerator := rfl }
  · rw [← tree.rootRef]
    exact Node.emplaceAt_value cctx t.nextCctxRef node.path t.tree
  · apply values.trans
    by_cases made : (t.tree.emplaceAt cctx t.nextCctxRef node.path).2.2
    · simp only [createCctxNode, made, if_true, List.range_succ]
      exact (tree.refs.cons _).trans (List.perm_append_singleton _ _).symm
    · simpa [createCctxNode, made] using tree.refs
  · change (t.tree.emplaceAt cctx t.nextCctxRef node.path).1.valueAt
      (node.path ++ [_]) = some _
    apply (lookup _ _).mpr
    have keyPath : EquivalentPaths (node.path ++ [cctx])
        (node.path ++
          [(t.tree.emplaceAt cctx t.nextCctxRef node.path).2.1.1]) :=
      List.rel_append (EquivalentPaths.refl node.path)
        (.cons storedKey.symm .nil)
    cases known : t.tree.valueAt (node.path ++ [cctx]) with
    | some ref =>
        left
        rw [known] at storedRef
        rw [← Node.valueAt_congr keyPath, known]
        exact storedRef.symm
    | none =>
        right
        rw [known] at storedRef
        exact ⟨rfl, keyPath, Option.some.inj storedRef⟩

theorem leaveLoop_zero (tp : TimePoint) (stack : List NodePtr) :
    leaveLoop tp 0 stack = (stack, []) := by
  cases stack <;> simp [leaveLoop]

/-- The loop pops down to `level` entries and writes a leave for each popped
one, the top first. -/
theorem leaveLoop_eq (tp : TimePoint) {level : Nat} (positive : 0 < level)
    (stack : List NodePtr) :
    leaveLoop tp level stack =
      (stack.drop (stack.length - level),
        (stack.take (stack.length - level)).map fun node =>
          .callingContextLeave tp node.ref) := by
  induction stack with
  | nil => simp [leaveLoop]
  | cons node below induction =>
      by_cases deep : level ≤ below.length
      · have count : (node :: below).length - level =
            (below.length - level) + 1 := by
          simp only [List.length_cons]
          omega
        rw [leaveLoop, if_pos ⟨positive, deep⟩, induction, count]
        rfl
      · have count : (node :: below).length - level = 0 := by
          simp only [List.length_cons]
          omega
        rw [leaveLoop, if_neg (fun both => deep both.2), count]
        rfl

theorem cctxLeave_zero (tp : TimePoint) (t : LocalCctxTree) :
    t.cctxLeave tp 0 = t := by
  simp [cctxLeave, leaveLoop_zero]

theorem cctxLeave_cur (tp : TimePoint) {level : Nat} (positive : 0 < level)
    (t : LocalCctxTree) :
    (t.cctxLeave tp level).cur = t.cur.drop (t.cur.length - level) := by
  simp [cctxLeave, leaveLoop_eq tp positive]

theorem cctxLeave_writer (tp : TimePoint) {level : Nat} (positive : 0 < level)
    (t : LocalCctxTree) :
    (t.cctxLeave tp level).writer =
      t.writer ++ (t.cur.take (t.cur.length - level)).map fun node =>
        .callingContextLeave tp node.ref := by
  simp [cctxLeave, leaveLoop_eq tp positive]

theorem cctxLeave_curLevel (tp : TimePoint) {level : Nat} (positive : 0 < level)
    (t : LocalCctxTree) :
    (t.cctxLeave tp level).curLevel = min t.curLevel (level - 1) := by
  simp only [curLevel, cctxLeave_cur tp positive, List.length_drop]
  omega

theorem Invariant.cctxLeave {t : LocalCctxTree} (invariant : t.Invariant)
    (tp : TimePoint) (level : Nat) : (t.cctxLeave tp level).Invariant := by
  cases level with
  | zero =>
      rw [cctxLeave_zero]
      exact invariant
  | succ level =>
      refine ⟨invariant.tree, ?_⟩
      rw [cctxLeave_cur tp level.succ_pos]
      apply invariant.stack.drop
      have nonempty := List.length_pos_of_ne_nil invariant.cur_ne_nil
      omega

/-- The effect of pushing a context: one node on top of the stack and one
enter event for it. -/
structure Pushed (tp : TimePoint) (cctx : EnteredContext)
    (t result : LocalCctxTree) : Prop where
  invariant : result.Invariant
  grows : Grows t.tree result.tree
  entered : ∃ node key,
    result.cur = node :: t.cur ∧ node.first = some key ∧
      Equivalent key cctx ∧
        result.writer = t.writer ++ [.callingContextEnter tp node.ref 2]

theorem pushCctx_spec {t : LocalCctxTree} (invariant : t.Invariant)
    (tp : TimePoint) (cctx : EnteredContext) :
    ∃ result, t.pushCctx tp cctx = .ok result ∧
      Pushed tp cctx t result := by
  cases top : t.cur with
  | nil => exact absurd top invariant.cur_ne_nil
  | cons back rest =>
      have valid : t.tree.valueAt back.path = some back.ref :=
        invariant.stack.valueAt invariant.tree.rootRef (by simp [top])
      have created := createCctxNode_spec invariant.tree cctx valid
      obtain ⟨key, path, sameKey⟩ := created.key
      refine ⟨_, by rw [pushCctx, top], ?_⟩
      refine
        { invariant := ⟨created.tree, ?_⟩
          grows := created.grows
          entered :=
            ⟨(t.createCctxNode cctx back).2, key, ?_, ?_, sameKey, ?_⟩ }
      · have stack := invariant.stack.mono created.grows
        change IsPathStack _ (_ :: (t.createCctxNode cctx back).1.cur)
        rw [created.cur, top]
        rw [top] at stack
        exact ⟨⟨key, path⟩, created.stored, stack⟩
      · exact congrArg _ created.cur
      · simp [NodePtr.first, path]
      · exact congrArg (· ++ _) created.writer

theorem handleEnter_push {t : LocalCctxTree} (tp : TimePoint) {level : Nat}
    (fresh : level = t.curLevel + 1) (cctx : EnteredContext) :
    t.handleEnterCctxNode tp level cctx = t.pushCctx tp cctx := by
  subst fresh
  simp [handleEnterCctxNode]

theorem handleEnter_replace {t : LocalCctxTree} (tp : TimePoint) {level : Nat}
    (positive : 0 < level) (present : level ≤ t.curLevel)
    {old : EnteredContext}
    (entry : (t.entryAt level).bind NodePtr.first = some old)
    (cctx : EnteredContext) :
    t.handleEnterCctxNode tp level cctx =
      if old.differs cctx then (t.cctxLeave tp level).pushCctx tp cctx
      else .ok t := by
  have notZero : level ≠ 0 := by omega
  have notAbove : ¬ t.curLevel + 1 < level := by omega
  have notFresh : level ≠ t.curLevel + 1 := by omega
  simp only [handleEnterCctxNode, if_neg notZero, if_neg notAbove,
    if_neg notFresh, entry, EnteredContext.ne_eq_ok]
  cases old.differs cctx <;> rfl

theorem Invariant.entryAt {t : LocalCctxTree} (invariant : t.Invariant)
    {level : Nat} (positive : 0 < level) (present : level ≤ t.curLevel) :
    ∃ node old, t.entryAt level = some node ∧ node.first = some old := by
  have length := invariant.cur_length
  have index : t.cur.length - 1 - level < t.cur.length := by omega
  have tailStack := invariant.stack.drop index
  have reversed : t.entryAt level = (t.cur.drop (t.cur.length - 1 - level))[0]? := by
    rw [LocalCctxTree.entryAt, List.getElem?_reverse (by omega)]
    simp
  cases shape : t.cur.drop (t.cur.length - 1 - level) with
  | nil =>
      rw [shape] at tailStack
      exact tailStack.elim
  | cons node rest =>
      cases rest with
      | nil =>
          have count := congrArg List.length shape
          simp only [List.length_drop, List.length_singleton] at count
          omega
      | cons below rest =>
          rw [shape] at tailStack
          obtain ⟨key, first⟩ := tailStack.first
          exact ⟨node, key, by rw [reversed, shape]; rfl, first⟩

/-- Entering one context at an admissible level succeeds: it pushes on the
stack left down to that level, or changes nothing. -/
theorem handleEnter_spec {t : LocalCctxTree} (invariant : t.Invariant)
    (tp : TimePoint) {level : Nat} (positive : 0 < level)
    (admissible : level ≤ t.curLevel + 1) (cctx : EnteredContext) :
    ∃ result, t.handleEnterCctxNode tp level cctx = .ok result ∧
      (Pushed tp cctx (t.cctxLeave tp level) result ∨
        result = t ∧ level ≤ t.curLevel) := by
  by_cases fresh : level = t.curLevel + 1
  · obtain ⟨result, pushed, spec⟩ := pushCctx_spec invariant tp cctx
    have nothingLeft : t.cctxLeave tp level = t := by
      have length := invariant.cur_length
      have none' : t.cur.length - level = 0 := by omega
      simp [LocalCctxTree.cctxLeave, leaveLoop_eq tp positive, none']
    refine ⟨result, (handleEnter_push tp fresh cctx).trans pushed, .inl ?_⟩
    rw [nothingLeft]
    exact spec
  · have present : level ≤ t.curLevel := by omega
    obtain ⟨node, old, entry, first⟩ := invariant.entryAt positive present
    rw [handleEnter_replace tp positive present (by rw [entry]; exact first)]
    by_cases differs : old.differs cctx = true
    · obtain ⟨result, pushed, spec⟩ :=
        pushCctx_spec (invariant.cctxLeave tp level) tp cctx
      exact ⟨result, by rw [if_pos differs]; exact pushed, .inl spec⟩
    · exact ⟨t, by rw [if_neg differs], .inr ⟨rfl, present⟩⟩

/-- The effect of a sample: the tree may have grown, the stack is untouched and
one sample event names a node at or below the top of the stack. -/
structure Sampled (tp : TimePoint) (distance : UInt64)
    (t result : LocalCctxTree) : Prop where
  invariant : result.Invariant
  grows : Grows t.tree result.tree
  cur : result.cur = t.cur
  sampled : ∃ back rest suffix ref, t.cur = back :: rest ∧
    result.tree.valueAt (back.path ++ suffix) = some ref ∧
      result.writer = t.writer ++
        [.callingContextSample tp ref distance t.interruptGenerator]

/-- The chain of nodes of one sample hangs below the node it starts at. -/
structure Chained (t : LocalCctxTree) (node : NodePtr)
    (result : LocalCctxTree × NodePtr) : Prop where
  tree : TreeInvariant result.1.tree result.1.nextCctxRef
  grows : Grows t.tree result.1.tree
  below : ∃ suffix, result.2.path = node.path ++ suffix
  stored : result.1.tree.valueAt result.2.path = some result.2.ref
  cur : result.1.cur = t.cur
  writer : result.1.writer = t.writer
  interruptGenerator :
    result.1.interruptGenerator = t.interruptGenerator

theorem Chained.refl {t : LocalCctxTree}
    (tree : TreeInvariant t.tree t.nextCctxRef) {node : NodePtr}
    (valid : t.tree.valueAt node.path = some node.ref) :
    Chained t node (t, node) :=
  ⟨tree, .refl _, ⟨[], by simp⟩, valid, rfl, rfl, rfl⟩

theorem Created.chained {t : LocalCctxTree} {cctx : EnteredContext}
    {node : NodePtr} {result : LocalCctxTree × NodePtr}
    (created : Created t cctx node result) : Chained t node result := by
  obtain ⟨key, path, _⟩ := created.key
  exact ⟨created.tree, created.grows, ⟨[key], path⟩, created.stored,
    created.cur, created.writer, created.interruptGenerator⟩

theorem Chained.trans {t : LocalCctxTree} {node : NodePtr}
    {middle last : LocalCctxTree × NodePtr}
    (first : Chained t node middle)
    (second : Chained middle.1 middle.2 last) : Chained t node last := by
  obtain ⟨firstSuffix, firstPath⟩ := first.below
  obtain ⟨secondSuffix, secondPath⟩ := second.below
  refine
    { tree := second.tree
      grows := first.grows.trans second.grows
      below := ⟨firstSuffix ++ secondSuffix, ?_⟩
      stored := second.stored
      cur := second.cur.trans first.cur
      writer := second.writer.trans first.writer
      interruptGenerator :=
        second.interruptGenerator.trans first.interruptGenerator }
  rw [secondPath, firstPath, List.append_assoc]

theorem readIp_inside {size : Nat} (ips : Fin size → UInt64) {i : Nat}
    (inside : i < size) : readIp ips i = .ok (ips ⟨i, inside⟩) :=
  dif_pos inside

theorem readIp_outside {size : Nat} (ips : Fin size → UInt64) {i : Nat}
    (outside : size ≤ i) : readIp ips i = .error .invalidAccess :=
  dif_neg (not_lt.mpr outside)

/-- A marker is passed over, at the end of the loop too; any other pointer has
its node. -/
theorem sampleLoop_succ {size : Nat} (ips : Fin size → UInt64)
    (rest : UnwrittenWords) {index : Nat} (inside : index + 1 < size)
    (node : NodePtr) (t : LocalCctxTree) :
    sampleLoop ips rest (index + 1) node t =
      if IsMarker (ips ⟨index + 1, inside⟩) then
        sampleLoop ips rest index node t
      else
        sampleLoop ips rest index
          (t.createCctxNode (.sample (ips ⟨index + 1, inside⟩) rest) node).2
          (t.createCctxNode (.sample (ips ⟨index + 1, inside⟩) rest) node).1 := by
  rw [sampleLoop, readIp_inside ips inside]
  by_cases marker : IsMarker (ips ⟨index + 1, inside⟩)
  · simp only [if_pos marker]
    cases index with
    | zero => rfl
    | succ index => exact if_neg (by omega)
  · simp only [if_neg marker]

theorem sampleLoop_spec {size : Nat} (ips : Fin size → UInt64)
    (rest : UnwrittenWords) {index : Nat} (inside : index < size)
    {t : LocalCctxTree} (tree : TreeInvariant t.tree t.nextCctxRef)
    {node : NodePtr} (valid : t.tree.valueAt node.path = some node.ref) :
    ∃ result, sampleLoop ips rest index node t = .ok result ∧
      Chained t node result := by
  induction index generalizing t node with
  | zero => exact ⟨_, rfl, .refl tree valid⟩
  | succ index induction =>
      have further : index < size := by omega
      rw [sampleLoop_succ ips rest inside]
      by_cases marker : IsMarker (ips ⟨index + 1, inside⟩)
      · rw [if_pos marker]
        exact induction further tree valid
      · rw [if_neg marker]
        have created := createCctxNode_spec tree
          (.sample (ips ⟨index + 1, inside⟩) rest) valid
        obtain ⟨result, ended, chained⟩ :=
          induction further created.tree created.stored
        exact ⟨result, ended, created.chained.trans chained⟩

/-- Writing the sample of a chain that started at the top of the stack. -/
theorem Chained.sampled {t : LocalCctxTree} (invariant : t.Invariant)
    {back : NodePtr} {rest : List NodePtr} (top : t.cur = back :: rest)
    {result : LocalCctxTree × NodePtr} (chained : Chained t back result)
    (tp : TimePoint) (distance : UInt64) :
    Sampled tp distance t (result.1.write
      (.callingContextSample tp result.2.ref distance
        result.1.interruptGenerator)) := by
  obtain ⟨suffix, path⟩ := chained.below
  refine
    { invariant := ⟨chained.tree, ?_⟩
      grows := chained.grows
      cur := chained.cur
      sampled := ⟨back, rest, suffix, result.2.ref, top, ?_, ?_⟩ }
  · change IsPathStack result.1.tree result.1.cur
    rw [chained.cur]
    exact invariant.stack.mono chained.grows
  · rw [← path]
    exact chained.stored
  · simp [write, chained.writer, chained.interruptGenerator]

/-- The index the loop starts at is the one of the last pointer. -/
theorem toNat_pred {numIps : UInt64} (nonempty : numIps ≠ 0) :
    (numIps - 1).toNat = numIps.toNat - 1 := by
  have positive : 1 ≤ numIps.toNat := by
    rw [Nat.one_le_iff_ne_zero]
    exact fun zero => nonempty (UInt64.toNat_inj.mp zero)
  exact UInt64.toNat_sub_of_le _ _ (UInt64.le_iff_toNat_le.mpr positive)

theorem toNat_pred_lt {numIps : UInt64} (nonempty : numIps ≠ 0) :
    (numIps - 1).toNat < numIps.toNat := by
  have positive : numIps.toNat ≠ 0 :=
    fun zero => nonempty (UInt64.toNat_inj.mp zero)
  rw [toNat_pred nonempty]
  omega

theorem cctxSample_eq {t : LocalCctxTree} {back : NodePtr}
    {below : List NodePtr} (top : t.cur = back :: below) {numIps : UInt64}
    {ips : Fin numIps.toNat → UInt64} {rest : UnwrittenWords}
    {chain : LocalCctxTree × NodePtr}
    (ended : sampleLoop ips rest (numIps - 1).toNat back t = .ok chain)
    (tp : TimePoint) :
    t.cctxSample tp numIps ips rest =
      .ok (chain.1.write (.callingContextSample tp chain.2.ref numIps
        chain.1.interruptGenerator)) := by
  rw [cctxSample, top]
  simp only [ended]

theorem cctxSample_zero (tp : TimePoint) (ips : Fin (0 : UInt64).toNat → UInt64)
    (rest : UnwrittenWords) (t : LocalCctxTree) :
    t.cctxSample tp 0 ips rest = .error .invalidAccess := by
  have start : ((0 : UInt64) - 1).toNat = (2 ^ 64 - 2) + 1 := by rfl
  cases top : t.cur with
  | nil => simp only [cctxSample, top]
  | cons back below =>
      rw [cctxSample, top]
      simp only [start, sampleLoop, readIp_outside ips (Nat.zero_le _)]

theorem cctxSample_nonempty {t result : LocalCctxTree} {tp : TimePoint}
    {numIps : UInt64} {ips : Fin numIps.toNat → UInt64} {rest : UnwrittenWords}
    (sampled : t.cctxSample tp numIps ips rest = .ok result) : numIps ≠ 0 := by
  rintro rfl
  rw [cctxSample_zero] at sampled
  cases sampled

theorem cctxSample_spec {t : LocalCctxTree} (invariant : t.Invariant)
    (tp : TimePoint) {numIps : UInt64} (nonempty : numIps ≠ 0)
    (ips : Fin numIps.toNat → UInt64) (rest : UnwrittenWords) :
    ∃ result, t.cctxSample tp numIps ips rest = .ok result ∧
      Sampled tp numIps t result := by
  cases top : t.cur with
  | nil => exact absurd top invariant.cur_ne_nil
  | cons back below =>
      have valid : t.tree.valueAt back.path = some back.ref :=
        invariant.stack.valueAt invariant.tree.rootRef (by simp [top])
      obtain ⟨chain, ended, chained⟩ :=
        sampleLoop_spec ips rest (toNat_pred_lt nonempty) invariant.tree valid
      exact ⟨_, cctxSample_eq top ended tp,
        chained.sampled invariant top tp numIps⟩

theorem cctxSampleIp_spec {t : LocalCctxTree} (invariant : t.Invariant)
    (tp : TimePoint) (ip : UInt64) (rest : UnwrittenWords) :
    ∃ result, t.cctxSampleIp tp ip rest = .ok result ∧
      Sampled tp 2 t result := by
  cases top : t.cur with
  | nil => exact absurd top invariant.cur_ne_nil
  | cons back below =>
      have valid : t.tree.valueAt back.path = some back.ref :=
        invariant.stack.valueAt invariant.tree.rootRef (by simp [top])
      refine ⟨_, by rw [cctxSampleIp, top], ?_⟩
      exact (createCctxNode_spec invariant.tree (.sample ip rest)
        valid).chained.sampled invariant top tp 2

end LocalCctxTree

end Lo2s
