import Lo2s.CctxEnter
import Mathlib.Data.List.OfFn

/-!
# Call chains

A sample has the instruction pointers of a call chain, the innermost first.
`cctx_sample` goes through them from the end down to the second one and keeps
in its index what it would need a signed integer for.
-/

namespace Lo2s

open Foundation KeyOrder

namespace LocalCctxTree

/-- The addresses of a call chain, the outermost first.  The first pointer is
that of the sample itself. -/
def callChain {size : Nat} (ips : Fin size → UInt64) : List UInt64 :=
  (List.ofFn ips).tail.reverse.filter fun ip => ¬ IsMarker ip

/-- The addresses that are read from an index down to the second pointer. -/
def addressesFrom {size : Nat} (ips : Fin size → UInt64) (index : Nat) :
    List UInt64 :=
  ((List.ofFn ips).take (index + 1)).tail.reverse.filter fun ip =>
    ¬ IsMarker ip

theorem addressesFrom_zero {size : Nat} (ips : Fin size → UInt64) :
    addressesFrom ips 0 = [] := by
  cases size <;> simp [addressesFrom, List.ofFn_succ]

theorem addressesFrom_succ {size : Nat} (ips : Fin size → UInt64) {index : Nat}
    (inside : index + 1 < size) :
    addressesFrom ips (index + 1) =
      if IsMarker (ips ⟨index + 1, inside⟩) then addressesFrom ips index
      else ips ⟨index + 1, inside⟩ :: addressesFrom ips index := by
  have read : ((List.ofFn ips).take (index + 1 + 1)).tail =
      ((List.ofFn ips).take (index + 1)).tail ++ [ips ⟨index + 1, inside⟩] := by
    have nonempty : (List.ofFn ips).take (index + 1) ≠ [] := by
      apply List.ne_nil_of_length_pos
      rw [List.length_take, List.length_ofFn]
      omega
    rw [List.take_succ_eq_append_getElem (by simpa using inside),
      List.tail_append_of_ne_nil nonempty, List.getElem_ofFn]
  rw [addressesFrom, read, List.reverse_append]
  by_cases marker : IsMarker (ips ⟨index + 1, inside⟩)
  · rw [if_pos marker]
    exact List.filter_cons_of_neg (by simpa using marker)
  · rw [if_neg marker]
    exact List.filter_cons_of_pos (by simpa using marker)

/-- From the last index on, these are the addresses of the call chain. -/
theorem addressesFrom_callChain {size : Nat} (ips : Fin size → UInt64) :
    addressesFrom ips (size - 1) = callChain ips := by
  have whole : (List.ofFn ips).take (size - 1 + 1) = List.ofFn ips := by
    apply List.take_of_length_le
    rw [List.length_ofFn]
    omega
  rw [addressesFrom, callChain, whole]

/-- Contexts of one address share a node, whatever is behind the address. -/
theorem equivalent_sample (addr : UInt64) (left right : UnwrittenWords) :
    Equivalent (EnteredContext.sample addr left)
      (EnteredContext.sample addr right) :=
  EnteredContext.equivalent_iff_rank.mpr rfl

def chainPath (addresses : List UInt64) (rest : UnwrittenWords) :
    List EnteredContext :=
  addresses.map fun addr => .sample addr rest

theorem equivalentPaths_chainPath (addresses : List UInt64)
    (left right : UnwrittenWords) :
    EquivalentPaths (chainPath addresses left) (chainPath addresses right) := by
  induction addresses with
  | nil => exact .nil
  | cons addr addresses induction =>
      exact .cons (equivalent_sample addr left right) induction

theorem sampleLoop_path {size : Nat} (ips : Fin size → UInt64)
    (rest : UnwrittenWords) {index : Nat} (inside : index < size)
    {t : LocalCctxTree} (tree : TreeInvariant t.tree t.nextCctxRef)
    {node : NodePtr} (valid : t.tree.valueAt node.path = some node.ref)
    {result : LocalCctxTree × NodePtr}
    (ended : sampleLoop ips rest index node t = .ok result) :
    ∃ suffix, result.2.path = node.path ++ suffix ∧
      EquivalentPaths suffix (chainPath (addressesFrom ips index) rest) := by
  induction index generalizing t node with
  | zero =>
      cases ended
      rw [addressesFrom_zero]
      exact ⟨[], (List.append_nil _).symm, .nil⟩
  | succ index induction =>
      have further : index < size := by omega
      rw [sampleLoop_succ ips rest inside] at ended
      rw [addressesFrom_succ ips inside]
      by_cases marker : IsMarker (ips ⟨index + 1, inside⟩)
      · rw [if_pos marker] at ended ⊢
        exact induction further tree valid ended
      · rw [if_neg marker] at ended ⊢
        have created := createCctxNode_spec tree
          (.sample (ips ⟨index + 1, inside⟩) rest) valid
        obtain ⟨key, path, same⟩ := created.key
        obtain ⟨suffix, below, chain⟩ :=
          induction further created.tree created.stored ended
        refine ⟨key :: suffix, ?_, .cons same chain⟩
        rw [below, path, List.append_assoc]
        rfl

theorem sampleLoop_callChain {numIps : UInt64} (nonempty : numIps ≠ 0)
    (ips : Fin numIps.toNat → UInt64) (rest : UnwrittenWords)
    {t : LocalCctxTree} (tree : TreeInvariant t.tree t.nextCctxRef)
    {node : NodePtr} (valid : t.tree.valueAt node.path = some node.ref)
    {result : LocalCctxTree × NodePtr}
    (ended : sampleLoop ips rest (numIps - 1).toNat node t = .ok result) :
    ∃ suffix, result.2.path = node.path ++ suffix ∧
      EquivalentPaths suffix (chainPath (callChain ips) rest) := by
  rw [← addressesFrom_callChain, ← toNat_pred nonempty]
  exact sampleLoop_path ips rest (toNat_pred_lt nonempty) tree valid ended

/-- One sample is written, of the node below the top of the stack that the
addresses lead to. -/
structure SampleRecorded (tp : TimePoint) (numIps : UInt64)
    (addresses : List UInt64) (rest : UnwrittenWords) (ref : Nat)
    (t result : LocalCctxTree) : Prop where
  cur : result.cur = t.cur
  writer : result.writer = t.writer ++
    [.callingContextSample tp ref numIps t.interruptGenerator]
  node : ∃ top below, t.cur = top :: below ∧
    result.tree.valueAt (top.path ++ chainPath addresses rest) = some ref

theorem cctxSample_recorded {t : LocalCctxTree} (invariant : t.Invariant)
    (tp : TimePoint) {numIps : UInt64} (nonempty : numIps ≠ 0)
    (ips : Fin numIps.toNat → UInt64) (rest : UnwrittenWords) :
    ∃ result ref, t.cctxSample tp numIps ips rest = .ok result ∧
      SampleRecorded tp numIps (callChain ips) rest ref t result ∧
        result.Invariant ∧ Grows t.tree result.tree := by
  cases top : t.cur with
  | nil => exact absurd top invariant.cur_ne_nil
  | cons back below =>
      have valid : t.tree.valueAt back.path = some back.ref :=
        invariant.stack.valueAt invariant.tree.rootRef (by simp [top])
      obtain ⟨chain, ended, chained⟩ :=
        sampleLoop_spec ips rest (toNat_pred_lt nonempty) invariant.tree valid
      obtain ⟨suffix, path, addresses⟩ :=
        sampleLoop_callChain nonempty ips rest invariant.tree valid ended
      have sampled := chained.sampled invariant top tp numIps
      refine ⟨_, chain.2.ref, cctxSample_eq top ended tp, ?_,
        sampled.invariant, sampled.grows⟩
      constructor
      case cur => exact sampled.cur
      case writer =>
        rw [← chained.writer, ← chained.interruptGenerator]
        rfl
      case node =>
        refine ⟨back, below, top, ?_⟩
        have same : EquivalentPaths (back.path ++ suffix)
            (back.path ++ chainPath (callChain ips) rest) :=
          List.rel_append (EquivalentPaths.refl _) addresses
        rw [← path] at same
        exact (Node.valueAt_congr same _).symm.trans chained.stored

theorem cctxEnter_grows {t result : LocalCctxTree} (invariant : t.Invariant)
    (tp : TimePoint) {level : Nat} (positive : 0 < level)
    (admissible : level ≤ t.curLevel + 1) {cctxs : List EnteredContext}
    (entered : t.cctxEnter tp level cctxs = .ok result) :
    Grows t.tree result.tree := by
  induction cctxs generalizing t level with
  | nil =>
      cases entered
      exact .refl _
  | cons cctx cctxs induction =>
      obtain ⟨next, done, nextInvariant, height, _⟩ :=
        handleEnter_keeps invariant tp positive admissible cctx
      have grows : Grows t.tree next.tree := by
        obtain ⟨same, again, pushed | ⟨unchanged, _⟩⟩ :=
          handleEnter_spec invariant tp positive admissible cctx
        · cases again.symm.trans done
          exact pushed.grows
        · cases again.symm.trans done
          rw [unchanged]
          exact .refl _
      rw [cctxEnter, done] at entered
      exact grows.trans
        (induction nextInvariant level.succ_pos (by omega) entered)

theorem Invariant.call_grows {t next : LocalCctxTree} (invariant : t.Invariant)
    {call : CctxCall} (called : t.call call = .ok next) :
    Grows t.tree next.tree := by
  cases call with
  | enter tp level ctx ctxs =>
      obtain ⟨positive, upper⟩ := cctxEnter_admissible called
      exact cctxEnter_grows invariant tp positive upper called
  | leave tp level =>
      rw [LocalCctxTree.call, Except.ok.injEq] at called
      exact called ▸ .refl _
  | sample tp numIps ips rest =>
      obtain ⟨result, finished, sampled⟩ :=
        cctxSample_spec invariant tp (cctxSample_nonempty called) ips rest
      rw [LocalCctxTree.call, finished, Except.ok.injEq] at called
      exact called ▸ sampled.grows
  | sampleIp tp ip rest =>
      obtain ⟨result, finished, sampled⟩ :=
        cctxSampleIp_spec invariant tp ip rest
      rw [LocalCctxTree.call, finished, Except.ok.injEq] at called
      exact called ▸ sampled.grows

theorem Invariant.reachable_grows {start t : LocalCctxTree}
    (invariant : start.Invariant)
    (reachable : Reachable LocalCctxTree.call start t) :
    t.Invariant ∧ Grows start.tree t.tree := by
  induction reachable with
  | start => exact ⟨invariant, .refl _⟩
  | step _ called induction =>
      obtain ⟨holds, grows⟩ := induction
      exact ⟨holds.call called, grows.trans (holds.call_grows called)⟩

theorem SampleRecorded.same_ref {tp tp' : TimePoint} {numIps numIps' : UInt64}
    {addresses : List UInt64} {rest rest' : UnwrittenWords} {ref ref' : Nat}
    {t result later last : LocalCctxTree}
    (first : SampleRecorded tp numIps addresses rest ref t result)
    (second : SampleRecorded tp' numIps' addresses rest' ref' later last)
    (sameStack : later.cur = t.cur) (grows : Grows result.tree last.tree) :
    ref' = ref := by
  obtain ⟨top, below, stack, stored⟩ := first.node
  obtain ⟨top', below', stack', stored'⟩ := second.node
  obtain ⟨rfl, _⟩ := List.cons.inj (stack'.symm.trans (sameStack.trans stack))
  have same : EquivalentPaths (top'.path ++ chainPath addresses rest)
      (top'.path ++ chainPath addresses rest') :=
    List.rel_append (EquivalentPaths.refl _)
      (equivalentPaths_chainPath addresses rest rest')
  have known := grows _ _ stored
  rw [Node.valueAt_congr same, stored'] at known
  exact Option.some.inj known

/-- The chain is recorded with one sample, and so is every later one of the same
addresses on the same stack, under the same reference. -/
def ChainRecorded (t : LocalCctxTree) (numIps : UInt64)
    (ips : Fin numIps.toNat → UInt64) : Prop :=
  ∀ tp rest, ∃ result ref, t.cctxSample tp numIps ips rest = .ok result ∧
    SampleRecorded tp numIps (callChain ips) rest ref t result ∧
    ∀ later, Reachable call result later → later.cur = t.cur →
      ∀ (tp' : TimePoint) (numIps' : UInt64)
        (ips' : Fin numIps'.toNat → UInt64) (rest' : UnwrittenWords) last,
        callChain ips' = callChain ips →
        later.cctxSample tp' numIps' ips' rest' = .ok last →
        last.writer = later.writer ++
          [.callingContextSample tp' ref numIps' later.interruptGenerator]

/-- A call chain is recorded exactly if it has a pointer. -/
theorem chainRecorded_iff {interruptGenerator : Nat} {t : LocalCctxTree}
    (reachable : Reachable call (init interruptGenerator) t) (numIps : UInt64)
    (ips : Fin numIps.toNat → UInt64) :
    t.ChainRecorded numIps ips ↔ numIps ≠ 0 := by
  constructor
  · rintro recorded rfl
    obtain ⟨result, ref, sampled, _⟩ := recorded 0 ⟨0, 0, 0⟩
    rw [cctxSample_zero] at sampled
    cases sampled
  · intro nonempty tp rest
    obtain ⟨result, ref, sampled, recorded, holds, _⟩ :=
      cctxSample_recorded (.reachable reachable) tp nonempty ips rest
    refine ⟨result, ref, sampled, recorded, ?_⟩
    intro later reached sameStack tp' numIps' ips' rest' last sameChain again
    -- The node of the first sample is still there when the second is taken.
    obtain ⟨laterHolds, grows⟩ := holds.reachable_grows reached
    have nonempty' : numIps' ≠ 0 := by
      rintro rfl
      rw [cctxSample_zero] at again
      cases again
    obtain ⟨same, ref', sampled', recorded', _, grows'⟩ :=
      cctxSample_recorded laterHolds tp' nonempty' ips' rest'
    cases sampled'.symm.trans again
    rw [sameChain] at recorded'
    rw [recorded'.writer,
      recorded.same_ref recorded' sameStack (grows.trans grows')]

/-- A chain that starts in the kernel. -/
def kernelChain : List UInt64 := [perfContextKernel, 64, perfContextUser, 32]

theorem chainRecorded_kernelChain :
    (init 0).ChainRecorded 4 kernelChain.get :=
  (chainRecorded_iff .start 4 kernelChain.get).mpr (by decide)

/-- The first read for an empty chain is far behind its end. -/
theorem empty_chain_unrecorded :
    ¬ (init 0).ChainRecorded 0 fun i => i.elim0 := by
  intro recorded
  obtain ⟨result, ref, sampled, _⟩ := recorded 0 ⟨0, 0, 0⟩
  rw [cctxSample_zero] at sampled
  cases sampled

end LocalCctxTree

end Lo2s
