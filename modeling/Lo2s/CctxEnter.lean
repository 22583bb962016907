import Lo2s.LocalCctxTreeInvariant

/-!
# Which contexts `cctx_enter` leaves on the stack

`cctx_enter` is asked for a list of contexts from some level on.  Where the
stack holds an old entry at a requested level, `operator!=` decides whether it
is replaced.  That operator answers `false` for two contexts of one type, so an
old entry that differs only in its value stays, and the request is met exactly
when the first differing entry is one the operator tells apart.
-/

namespace Lo2s

open Foundation KeyOrder

namespace LocalCctxTree

/-- The stack holds, at `level`, a context equal to `cctx` under
`operator==`. -/
def EntryIs (t : LocalCctxTree) (level : Nat) (cctx : EnteredContext) : Prop :=
  ∃ node old, t.entryAt level = some node ∧ node.first = some old ∧
    old.context.eq cctx.context = .ok true

theorem entryIs_iff {t : LocalCctxTree} {level : Nat} {cctx : EnteredContext} :
    t.EntryIs level cctx ↔
      ∃ node old, t.entryAt level = some node ∧ node.first = some old ∧
        Equivalent old cctx := by
  simp [EntryIs, EnteredContext.eq_eq_ok]

theorem EntryIs.congr {left right : LocalCctxTree} {level : Nat}
    {cctx : EnteredContext} (same : left.entryAt level = right.entryAt level) :
    left.EntryIs level cctx ↔ right.EntryIs level cctx := by
  simp [EntryIs, same]

/-- `i` is the first position at which the stack has an entry of its own that
is not the requested context. -/
def FirstDiffering (t : LocalCctxTree) (level : Nat)
    (cctxs : List EnteredContext) (i : Nat) : Prop :=
  (∃ cctx, cctxs[i]? = some cctx ∧ level + i ≤ t.curLevel ∧
    ¬ t.EntryIs (level + i) cctx) ∧
  ∀ j < i, ∀ cctx, cctxs[j]? = some cctx → t.EntryIs (level + j) cctx

/-- What the caller of `cctx_enter` relies on: each context stands at its
level, and if an old entry differed, everything from there up was left before
the new contexts were entered. -/
def EnteredAsAsked (tp : TimePoint) (t : LocalCctxTree) (level : Nat)
    (cctxs : List EnteredContext) : Prop :=
  ∃ result, t.cctxEnter tp level cctxs = .ok result ∧
    (∀ i cctx, cctxs[i]? = some cctx → result.EntryIs (level + i) cctx) ∧
    ∀ i, FirstDiffering t level cctxs i →
      result.curLevel + 1 = level + cctxs.length ∧
      ∃ entered, (∀ event ∈ entered,
          ∃ ref, event = .callingContextEnter tp ref 2) ∧
        result.writer = t.writer ++
          (t.cur.take (t.cur.length - (level + i))).map
            (fun node => .callingContextLeave tp node.ref) ++ entered

/-- The first differing entry has another type than the requested context, and
another value in the union member its own type selects. -/
def ToldApart (t : LocalCctxTree) (level : Nat)
    (cctxs : List EnteredContext) : Prop :=
  ∀ i cctx, FirstDiffering t level cctxs i → cctxs[i]? = some cctx →
    ∃ node old, t.entryAt (level + i) = some node ∧ node.first = some old ∧
      old.context.type ≠ cctx.context.type ∧
        old.context.memberNe cctx.context = .ok true

theorem Pushed.entryAt {tp : TimePoint} {cctx : EnteredContext}
    {t result : LocalCctxTree} (pushed : Pushed tp cctx t result)
    {level : Nat} (inside : level < t.cur.length) :
    result.entryAt level = t.entryAt level := by
  obtain ⟨node, key, cur, _⟩ := pushed.entered
  simp only [LocalCctxTree.entryAt, cur, List.reverse_cons]
  rw [List.getElem?_append_left (by simpa using inside)]

theorem Pushed.entryIs {tp : TimePoint} {cctx : EnteredContext}
    {t result : LocalCctxTree} (pushed : Pushed tp cctx t result) :
    result.EntryIs t.cur.length cctx := by
  obtain ⟨node, key, cur, first, same, _⟩ := pushed.entered
  refine entryIs_iff.mpr ⟨node, key, ?_, first, same⟩
  simp only [LocalCctxTree.entryAt, cur, List.reverse_cons]
  rw [List.getElem?_append_right (by simp)]
  simp

theorem Pushed.curLevel {tp : TimePoint} {cctx : EnteredContext}
    {t result : LocalCctxTree} (pushed : Pushed tp cctx t result) :
    result.curLevel = t.cur.length := by
  obtain ⟨node, key, cur, _⟩ := pushed.entered
  simp [LocalCctxTree.curLevel, cur]

theorem cctxLeave_entryAt (tp : TimePoint) {level below : Nat}
    (deeper : below < level) {t : LocalCctxTree} (present : level ≤ t.cur.length) :
    (t.cctxLeave tp level).entryAt below = t.entryAt below := by
  have positive : 0 < level := Nat.zero_lt_of_lt deeper
  simp only [LocalCctxTree.entryAt, cctxLeave_cur tp positive,
    List.reverse_drop]
  rw [List.getElem?_take_of_lt (by omega)]

theorem cctxLeave_length (tp : TimePoint) {level : Nat} (positive : 0 < level)
    {t : LocalCctxTree} (present : level ≤ t.cur.length) :
    (t.cctxLeave tp level).cur.length = level := by
  rw [cctxLeave_cur tp positive, List.length_drop]
  omega

/-- Entering one context leaves the entries below its level alone. -/
theorem handleEnter_keeps {t : LocalCctxTree} (invariant : t.Invariant)
    (tp : TimePoint) {level : Nat} (positive : 0 < level)
    (admissible : level ≤ t.curLevel + 1) (cctx : EnteredContext) :
    ∃ result, t.handleEnterCctxNode tp level cctx = .ok result ∧
      result.Invariant ∧ level ≤ result.curLevel ∧
        ∀ below < level, result.entryAt below = t.entryAt below := by
  have length := invariant.cur_length
  obtain ⟨result, entered, pushed | ⟨rfl, present⟩⟩ :=
    handleEnter_spec invariant tp positive admissible cctx
  · have height := cctxLeave_length tp positive (t := t) (by omega)
    refine ⟨result, entered, pushed.invariant, ?_, ?_⟩
    · rw [pushed.curLevel, height]
    · intro below deeper
      rw [pushed.entryAt (by rw [height]; exact deeper)]
      exact cctxLeave_entryAt tp deeper (by omega)
  · exact ⟨result, entered, invariant, present, fun _ _ => rfl⟩

/-- Entering a list of contexts succeeds and leaves the entries below it
alone. -/
theorem cctxEnter_keeps {t : LocalCctxTree} (invariant : t.Invariant)
    (tp : TimePoint) {level : Nat} (positive : 0 < level)
    (admissible : level ≤ t.curLevel + 1) (cctxs : List EnteredContext) :
    ∃ result, t.cctxEnter tp level cctxs = .ok result ∧
      result.Invariant ∧
        ∀ below < level, result.entryAt below = t.entryAt below := by
  induction cctxs generalizing t level with
  | nil => exact ⟨t, rfl, invariant, fun _ _ => rfl⟩
  | cons cctx cctxs induction =>
      obtain ⟨middle, entered, middleInvariant, height, kept⟩ :=
        handleEnter_keeps invariant tp positive admissible cctx
      obtain ⟨result, finished, resultInvariant, keptAfter⟩ :=
        induction middleInvariant level.succ_pos (by omega)
      refine ⟨result, ?_, resultInvariant, ?_⟩
      · rw [cctxEnter, entered]
        exact finished
      · intro below deeper
        rw [keptAfter below (by omega), kept below deeper]

theorem cctxEnter_push {t : LocalCctxTree} (invariant : t.Invariant)
    (tp : TimePoint) (cctxs : List EnteredContext) :
    ∃ result entered, t.cctxEnter tp t.cur.length cctxs = .ok result ∧
      (∀ i cctx, cctxs[i]? = some cctx →
        result.EntryIs (t.cur.length + i) cctx) ∧
      result.cur.length = t.cur.length + cctxs.length ∧
      (∀ event ∈ entered, ∃ ref, event = .callingContextEnter tp ref 2) ∧
      result.writer = t.writer ++ entered := by
  induction cctxs generalizing t with
  | nil => exact ⟨t, [], rfl, by simp, rfl, by simp, by simp⟩
  | cons cctx cctxs induction =>
      obtain ⟨middle, entered, pushed⟩ := pushCctx_spec invariant tp cctx
      obtain ⟨node, key, cur, _, _, writer⟩ := pushed.entered
      have height : middle.cur.length = t.cur.length + 1 := by simp [cur]
      obtain ⟨result, events, finished, stand, resultHeight, enters,
          resultWriter⟩ := induction pushed.invariant
      rw [height] at finished stand resultHeight
      have first := handleEnter_push tp invariant.cur_length cctx
      have kept : result.entryAt t.cur.length = middle.entryAt t.cur.length := by
        obtain ⟨again, same, _, keptBelow⟩ :=
          cctxEnter_keeps pushed.invariant tp
            (Nat.succ_pos t.cur.length)
            (by rw [pushed.curLevel]) cctxs
        rw [finished, Except.ok.injEq] at same
        subst same
        exact keptBelow _ (Nat.lt_succ_self _)
      refine ⟨result, .callingContextEnter tp node.ref 2 :: events, ?_, ?_, ?_,
        ?_, ?_⟩
      · rw [cctxEnter, first, entered]
        exact finished
      · intro i wanted position
        cases i with
        | zero =>
            simp only [List.getElem?_cons_zero, Option.some.injEq] at position
            subst position
            exact (EntryIs.congr kept).mpr pushed.entryIs
        | succ i =>
            simp only [List.getElem?_cons_succ] at position
            have above := stand i wanted position
            rwa [Nat.add_assoc, Nat.add_comm 1 i] at above
      · simp only [resultHeight, List.length_cons]
        omega
      · intro event member
        rcases List.mem_cons.mp member with same | later
        · exact ⟨node.ref, same⟩
        · exact enters event later
      · rw [resultWriter, writer]
        simp

theorem not_firstDiffering_nil {t : LocalCctxTree} {level i : Nat} :
    ¬ FirstDiffering t level [] i := by
  intro holds
  obtain ⟨⟨cctx, position, _⟩, _⟩ := holds
  simp at position

theorem firstDiffering_zero {t : LocalCctxTree} {level : Nat}
    {cctx : EnteredContext} {cctxs : List EnteredContext} :
    FirstDiffering t level (cctx :: cctxs) 0 ↔
      level ≤ t.curLevel ∧ ¬ t.EntryIs level cctx := by
  simp [FirstDiffering]

theorem firstDiffering_succ {t : LocalCctxTree} {level i : Nat}
    {cctx : EnteredContext} {cctxs : List EnteredContext} :
    FirstDiffering t level (cctx :: cctxs) (i + 1) ↔
      t.EntryIs level cctx ∧ FirstDiffering t (level + 1) cctxs i := by
  have shift : ∀ j, level + (j + 1) = level + 1 + j := by omega
  constructor
  · intro holds
    obtain ⟨⟨wanted, position, inside, differing⟩, equal⟩ := holds
    rw [shift i] at inside differing
    refine ⟨by simpa using equal 0 (Nat.succ_pos i) cctx,
      ⟨wanted, by simpa using position, inside, differing⟩, ?_⟩
    intro j smaller other otherPosition
    have same := equal (j + 1) (by omega) other (by simpa using otherPosition)
    rwa [shift j] at same
  · intro holds
    obtain ⟨head, ⟨wanted, position, inside, differing⟩, equal⟩ := holds
    rw [← shift i] at inside differing
    refine ⟨⟨wanted, by simpa using position, inside, differing⟩, ?_⟩
    intro j smaller wanted position
    cases j with
    | zero =>
        simp only [List.getElem?_cons_zero, Option.some.injEq] at position
        subst position
        exact head
    | succ j =>
        rw [shift]
        exact equal j (by omega) wanted (by simpa using position)

theorem toldApart_cons {t : LocalCctxTree} {level : Nat}
    {cctx : EnteredContext} {cctxs : List EnteredContext}
    (same : t.EntryIs level cctx) :
    ToldApart t level (cctx :: cctxs) ↔ ToldApart t (level + 1) cctxs := by
  have shift : ∀ j, level + (j + 1) = level + 1 + j := by omega
  constructor
  · intro apart i wanted first position
    have found := apart (i + 1) wanted
      (firstDiffering_succ.mpr ⟨same, first⟩) (by simpa using position)
    rwa [shift] at found
  · intro apart i wanted first position
    cases i with
    | zero => exact absurd same (firstDiffering_zero.mp first).2
    | succ i =>
        rw [shift]
        exact apart i wanted (firstDiffering_succ.mp first).2
          (by simpa using position)

/-- A requested context that stands already leaves the request for the rest. -/
theorem enteredAsAsked_cons {t : LocalCctxTree} (invariant : t.Invariant)
    {tp : TimePoint} {level : Nat} (present : level ≤ t.curLevel)
    {cctx : EnteredContext} {cctxs : List EnteredContext} (same : t.EntryIs level cctx)
    (unchanged : t.handleEnterCctxNode tp level cctx = .ok t) :
    EnteredAsAsked tp t level (cctx :: cctxs) ↔
      EnteredAsAsked tp t (level + 1) cctxs := by
  have shift : ∀ j, level + (j + 1) = level + 1 + j := by omega
  have length : level + (cctx :: cctxs).length = level + 1 + cctxs.length := by
    simp only [List.length_cons]
    omega
  obtain ⟨result, finished, _, kept⟩ :=
    cctxEnter_keeps invariant tp level.succ_pos (by omega) cctxs
  have whole : t.cctxEnter tp level (cctx :: cctxs) = .ok result := by
    rw [cctxEnter, unchanged]
    exact finished
  have stays : result.EntryIs level cctx :=
    (EntryIs.congr (kept level (Nat.lt_succ_self level))).mpr same
  constructor
  · intro holds
    obtain ⟨other, entered, stand, left⟩ := holds
    rw [whole, Except.ok.injEq] at entered
    subst entered
    refine ⟨result, finished, ?_, ?_⟩
    · intro i wanted position
      have above := stand (i + 1) wanted (by simpa using position)
      rwa [shift] at above
    · intro i first
      have found := left (i + 1) (firstDiffering_succ.mpr ⟨same, first⟩)
      rwa [length, shift i] at found
  · intro holds
    obtain ⟨other, entered, stand, left⟩ := holds
    rw [finished, Except.ok.injEq] at entered
    subst entered
    refine ⟨result, whole, ?_, ?_⟩
    · intro i wanted position
      cases i with
      | zero =>
          simp only [List.getElem?_cons_zero, Option.some.injEq] at position
          subst position
          exact stays
      | succ i =>
          rw [shift]
          exact stand i wanted (by simpa using position)
    · intro i first
      cases i with
      | zero => exact absurd same (firstDiffering_zero.mp first).2
      | succ i =>
          rw [length, shift i]
          exact left i (firstDiffering_succ.mp first).2

theorem enteredAsAsked_push {t : LocalCctxTree} (invariant : t.Invariant)
    (tp : TimePoint) (cctxs : List EnteredContext) :
    EnteredAsAsked tp t (t.curLevel + 1) cctxs := by
  have length := invariant.cur_length
  obtain ⟨result, entered, finished, stand, _⟩ :=
    cctxEnter_push invariant tp cctxs
  rw [length] at finished stand
  refine ⟨result, finished, stand, ?_⟩
  intro i holds
  obtain ⟨⟨cctx, _, inside, _⟩, _⟩ := holds
  omega

/-- An entry that the operator tells apart is left with everything above it,
and the whole list is pushed. -/
theorem enteredAsAsked_replace {t : LocalCctxTree} (invariant : t.Invariant)
    {tp : TimePoint} {level : Nat} (positive : 0 < level)
    (present : level ≤ t.curLevel) {cctx : EnteredContext}
    {cctxs : List EnteredContext} (different : ¬ t.EntryIs level cctx)
    (replaced : t.handleEnterCctxNode tp level cctx =
      (t.cctxLeave tp level).pushCctx tp cctx) :
    EnteredAsAsked tp t level (cctx :: cctxs) := by
  have length := invariant.cur_length
  have height : (t.cctxLeave tp level).cur.length = level :=
    cctxLeave_length tp positive (by omega)
  have leftInvariant := invariant.cctxLeave tp level
  have same : t.cctxEnter tp level (cctx :: cctxs) =
      (t.cctxLeave tp level).cctxEnter tp level (cctx :: cctxs) := by
    have fresh : level = (t.cctxLeave tp level).curLevel + 1 := by
      rw [← leftInvariant.cur_length, height]
    rw [cctxEnter, cctxEnter, replaced, handleEnter_push tp fresh]
  obtain ⟨result, entered, finished, stand, resultHeight, enters, writer⟩ :=
    cctxEnter_push leftInvariant tp (cctx :: cctxs)
  rw [height] at finished stand resultHeight
  refine ⟨result, same.trans finished, stand, ?_⟩
  intro i first
  cases i with
  | succ i => exact absurd (firstDiffering_succ.mp first).1 different
  | zero =>
      refine ⟨?_, entered, enters, ?_⟩
      · simp only [curLevel, resultHeight, List.length_cons]
        omega
      · rw [writer, cctxLeave_writer tp positive]
        rfl

theorem enteredAsAsked_iff {t : LocalCctxTree} (invariant : t.Invariant)
    (tp : TimePoint) {level : Nat} (positive : 0 < level)
    (admissible : level ≤ t.curLevel + 1) (cctxs : List EnteredContext) :
    EnteredAsAsked tp t level cctxs ↔ ToldApart t level cctxs := by
  induction cctxs generalizing level with
  | nil =>
      constructor
      · intro _ i cctx first
        exact absurd first not_firstDiffering_nil
      · intro _
        exact ⟨t, rfl, by simp, fun i first =>
          absurd first not_firstDiffering_nil⟩
  | cons cctx cctxs induction =>
      by_cases fresh : level = t.curLevel + 1
      · subst fresh
        apply iff_of_true (enteredAsAsked_push invariant tp _)
        intro i wanted holds
        obtain ⟨⟨_, _, inside, _⟩, _⟩ := holds
        omega
      · have present : level ≤ t.curLevel := by omega
        obtain ⟨node, old, entry, first⟩ := invariant.entryAt positive present
        have handled := handleEnter_replace tp positive present
          (by rw [entry]; exact first) cctx
        by_cases same : t.EntryIs level cctx
        · -- Equal contexts have one type, so the operator answers `false`.
          have equivalent : Equivalent old cctx := by
            obtain ⟨_, _, entry', first', same'⟩ := entryIs_iff.mp same
            rw [entry, Option.some.injEq] at entry'
            subst entry'
            rw [first, Option.some.injEq] at first'
            subst first'
            exact same'
          have notTold : ¬ old.differs cctx = true := fun told =>
            EnteredContext.not_equivalent_of_differs told equivalent
          rw [if_neg notTold] at handled
          rw [enteredAsAsked_cons invariant present same handled,
            toldApart_cons same]
          exact induction level.succ_pos (by omega)
        · have firstDiffering : FirstDiffering t level (cctx :: cctxs) 0 :=
            firstDiffering_zero.mpr ⟨present, same⟩
          by_cases told : old.differs cctx = true
          · rw [if_pos told] at handled
            refine iff_of_true
              (enteredAsAsked_replace invariant positive present same handled) ?_
            intro i wanted differing position
            cases i with
            | succ i => exact absurd (firstDiffering_succ.mp differing).1 same
            | zero =>
                simp only [List.getElem?_cons_zero, Option.some.injEq] at position
                subst position
                exact ⟨node, old, entry, first, EnteredContext.differs_iff.mp told⟩
          · -- The old entry stays, so the requested one cannot stand there.
            rw [if_neg told] at handled
            refine iff_of_false ?_ ?_
            · intro holds
              obtain ⟨result, entered, stand, _⟩ := holds
              obtain ⟨other, finished, _, kept⟩ :=
                cctxEnter_keeps invariant tp level.succ_pos (by omega) cctxs
              rw [cctxEnter, handled] at entered
              have sameResult : other = result :=
                Except.ok.inj (finished.symm.trans entered)
              subst sameResult
              have stays := stand 0 cctx rfl
              rw [Nat.add_zero,
                EntryIs.congr (kept level (Nat.lt_succ_self level))] at stays
              exact same stays
            · intro apart
              obtain ⟨_, _, entry', first', differ⟩ :=
                apart 0 cctx firstDiffering rfl
              rw [Nat.add_zero, entry, Option.some.injEq] at entry'
              subst entry'
              rw [first, Option.some.injEq] at first'
              subst first'
              exact told (EnteredContext.differs_iff.mpr differ)

theorem cctxEnter_admissible {t result : LocalCctxTree} {tp : TimePoint}
    {level : Nat} {ctx : EnteredContext} {ctxs : List EnteredContext}
    (entered : t.cctxEnter tp level (ctx :: ctxs) = .ok result) :
    0 < level ∧ level ≤ t.curLevel + 1 := by
  by_cases zero : level = 0
  · simp [cctxEnter, handleEnterCctxNode, zero] at entered
  · by_cases above : t.curLevel + 1 < level
    · simp [cctxEnter, handleEnterCctxNode, zero, above] at entered
    · omega

theorem Invariant.call {t next : LocalCctxTree} (invariant : t.Invariant)
    {call : CctxCall} (called : t.call call = .ok next) : next.Invariant := by
  cases call with
  | enter tp level ctx ctxs =>
      obtain ⟨positive, upper⟩ := cctxEnter_admissible called
      obtain ⟨result, finished, holds, _⟩ :=
        cctxEnter_keeps invariant tp positive upper (ctx :: ctxs)
      rw [LocalCctxTree.call, finished, Except.ok.injEq] at called
      exact called ▸ holds
  | leave tp level =>
      rw [LocalCctxTree.call, Except.ok.injEq] at called
      exact called ▸ invariant.cctxLeave tp level
  | sample tp numIps ips rest =>
      obtain ⟨result, finished, sampled⟩ :=
        cctxSample_spec invariant tp (cctxSample_nonempty called) ips rest
      rw [LocalCctxTree.call, finished, Except.ok.injEq] at called
      exact called ▸ sampled.invariant
  | sampleIp tp ip rest =>
      obtain ⟨result, finished, sampled⟩ :=
        cctxSampleIp_spec invariant tp ip rest
      rw [LocalCctxTree.call, finished, Except.ok.injEq] at called
      exact called ▸ sampled.invariant

theorem Invariant.reachable {interruptGenerator : Nat} {t : LocalCctxTree}
    (reachable : Reachable LocalCctxTree.call (.init interruptGenerator) t) :
    t.Invariant :=
  reachable.invariant (.init interruptGenerator)
    fun _ _ _ invariant called => invariant.call called

/-- In every reachable state and at every admissible level, the requested
contexts end up on the stack exactly when the first old entry that differs from
its request is told apart from it by `operator!=`. -/
theorem cctxEnter_entersAsAsked_iff {interruptGenerator : Nat}
    {t : LocalCctxTree}
    (reachable : Reachable LocalCctxTree.call (.init interruptGenerator) t)
    (tp : TimePoint) {level : Nat} (positive : 0 < level)
    (admissible : level ≤ t.curLevel + 1) (ctx : EnteredContext)
    (ctxs : List EnteredContext) :
    EnteredAsAsked tp t level (ctx :: ctxs) ↔ ToldApart t level (ctx :: ctxs) :=
  enteredAsAsked_iff (.reachable reachable) tp positive admissible _

/-- A process and its thread take the place of a system call that has not been
left. -/
theorem cctxEnter_entersAsAsked_replaced :
    ∃ t, run LocalCctxTree.call (init 0)
        [.enter 1 1 (.syscall 7 ⟨0, 0, 0⟩) []] = .ok t ∧
      FirstDiffering t 1 [.process ⟨8⟩ ⟨0, 0, 0⟩, .thread ⟨9⟩ ⟨0, 0, 0⟩] 0 ∧
      EnteredAsAsked 2 t 1
        [.process ⟨8⟩ ⟨0, 0, 0⟩, .thread ⟨9⟩ ⟨0, 0, 0⟩] := by
  obtain ⟨t, ran⟩ : ∃ t, run LocalCctxTree.call (init 0)
      [.enter 1 1 (.syscall 7 ⟨0, 0, 0⟩) []] = .ok t := ⟨_, rfl⟩
  have entry : ∃ node, t.entryAt 1 = some node ∧
      node.first = some (.syscall 7 ⟨0, 0, 0⟩) := by
    cases ran
    exact ⟨_, rfl, rfl⟩
  have level : t.curLevel = 1 := by
    cases ran
    rfl
  obtain ⟨node, entered, first⟩ := entry
  have other : ¬ t.EntryIs 1 (.process ⟨8⟩ ⟨0, 0, 0⟩) := by
    rintro ⟨found, old, entered', first', same⟩
    cases entered.symm.trans entered'
    cases first.symm.trans first'
    exact absurd same (by decide)
  refine ⟨t, ran, firstDiffering_zero.mpr ⟨by omega, other⟩, ?_⟩
  apply (cctxEnter_entersAsAsked_iff (.of_run ran) 2 Nat.one_pos (by omega) _
    _).mpr
  intro i cctx differing position
  cases i with
  | zero =>
      cases position
      exact ⟨node, _, entered, first, by decide, by decide⟩
  | succ i => exact absurd (firstDiffering_succ.mp differing).1 other

/-- Two `sys_enter` records with no exit in between: the second system call is
recorded under the first one. -/
theorem second_sysEnter_not_entered :
    ∃ t, run LocalCctxTree.call (init 0)
        [.enter 1 1 (.syscall 7 ⟨0, 0, 0⟩) []] = .ok t ∧
      ¬ EnteredAsAsked 2 t 1 [.syscall 8 ⟨0, 0, 0⟩] := by
  refine ⟨_, rfl, ?_⟩
  intro holds
  obtain ⟨result, entered, stand, _⟩ := holds
  obtain ⟨node, old, entry, first, same⟩ := stand 0 _ rfl
  cases entered
  cases entry
  cases first
  exact absurd same (by decide)

end LocalCctxTree

end Lo2s
