import Lo2s.Foundation.LoopExit
import Lo2s.ParseList
import Mathlib.Data.List.TakeWhile

/-!
# Which lists of CPUs are read completely

A list of numbers and ranges below 2^31 is read as the set of the numbers in
it.  Any other text is read up to the first part that is no such item, which
ends in an exception, unless that part is a range that ends with -1.
-/

namespace Lo2s

open Foundation Scan

theorem insertCpuid_sorted {cpuid : UInt32} {res : List UInt32}
    (sorted : res.Pairwise (· < ·)) :
    (insertCpuid cpuid res).Pairwise (· < ·) := by
  induction res with
  | nil => exact List.pairwise_singleton ..
  | cons first rest ih =>
      obtain ⟨smallest, restSorted⟩ := List.pairwise_cons.mp sorted
      rw [insertCpuid]
      split_ifs with smaller same
      · apply List.pairwise_cons.mpr
        refine ⟨fun other member => ?_, sorted⟩
        rcases List.mem_cons.mp member with rfl | later
        · exact smaller
        · exact UInt32.lt_trans smaller (smallest other later)
      · exact sorted
      · apply List.pairwise_cons.mpr
        refine ⟨fun other member => ?_, ih restSorted⟩
        rcases mem_insertCpuid.mp member with rfl | later
        · exact UInt32.lt_of_le_of_ne (UInt32.not_lt.mp smaller) (Ne.symm same)
        · exact smallest other later

theorem rangeLoop_sorted {rounds : Nat} {i last : UInt32}
    {res result : List UInt32} (sorted : res.Pairwise (· < ·))
    (ended : rangeLoop rounds i last res = some result) :
    result.Pairwise (· < ·) := by
  induction rounds generalizing i res with
  | zero => cases ended
  | succ rounds ih =>
      rw [rangeLoop] at ended
      split_ifs at ended
      · exact ih (insertCpuid_sorted sorted) ended
      · cases ended
        exact sorted

theorem parsePart_sorted {rounds : Nat} {part : List Char}
    {res result : List UInt32} (sorted : res.Pairwise (· < ·))
    (parsed : parsePart rounds part res = some (.ok result)) :
    result.Pairwise (· < ·) := by
  cases partReads part with
  | throws error notParses notEndless reads =>
      rw [reads] at parsed
      cases parsed
  | number cpuid parses notEndless names reads =>
      rw [reads] at parsed
      cases parsed
      exact insertCpuid_sorted sorted
  | range first last parses endless names reads =>
      rw [reads] at parsed
      obtain ⟨other, ended, same⟩ := Option.map_eq_some_iff.mp parsed
      cases same
      exact rangeLoop_sorted sorted ended

theorem parseParts_sorted {rounds : Nat} {parts : List (List Char)}
    {res result : List UInt32} (sorted : res.Pairwise (· < ·))
    (parsed : parseParts rounds parts res = some (.ok result)) :
    result.Pairwise (· < ·) := by
  induction parts generalizing res with
  | nil =>
      cases parsed
      exact sorted
  | cons part parts ih =>
      rw [parseParts] at parsed
      cases first : parsePart rounds part res with
      | none =>
          rw [first] at parsed
          cases parsed
      | some answer =>
          rw [first] at parsed
          cases answer with
          | error thrown => cases parsed
          | ok between => exact ih (parsePart_sorted sorted first) parsed

theorem eq_of_sorted {left right : List UInt32}
    (leftSorted : left.Pairwise (· < ·)) (rightSorted : right.Pairwise (· < ·))
    (same : ∀ cpuid, cpuid ∈ left ↔ cpuid ∈ right) : left = right := by
  have perm : left.Perm right :=
    (List.perm_ext_iff_of_nodup (leftSorted.imp UInt32.ne_of_lt)
      (rightSorted.imp UInt32.ne_of_lt)).mpr same
  apply perm.eq_of_pairwise _ leftSorted rightSorted
  intro first second _ _ less greater
  exact absurd less (UInt32.lt_asymm greater)

/-- A part is read, or it is read for ever, or its reading throws. -/
theorem parsePart_ends (part : List Char) :
    (PartParses part ∧ ¬ EndlessPart part) ∨
      (EndlessPart part ∧ ∀ rounds res, parsePart rounds part res = none) ∨
        ¬ PartParses part ∧ ¬ EndlessPart part ∧
          ∃ thrown, ∀ rounds res,
            parsePart rounds part res = some (.error thrown) := by
  cases partReads part with
  | throws error notParses notEndless reads =>
      exact .inr (.inr ⟨notParses, notEndless, _, reads⟩)
  | number cpuid parses notEndless names reads => exact .inl ⟨parses, notEndless⟩
  | range first last parses endless names reads =>
      by_cases greatest : last = 0 - 1
      · right
        left
        refine ⟨endless.mpr greatest, fun rounds res => ?_⟩
        rw [reads, greatest, rangeLoop_diverges]
        rfl
      · exact .inl ⟨parses.mpr greatest, mt endless.mp greatest⟩

theorem parsePart_mono {rounds more : Nat} (enough : rounds ≤ more)
    {part : List Char} {res : List UInt32}
    {answer : Except EventError (List UInt32)}
    (parsed : parsePart rounds part res = some answer) :
    parsePart more part res = some answer := by
  cases partReads part with
  | throws error notParses notEndless reads =>
      rw [reads] at parsed ⊢
      exact parsed
  | number cpuid parses notEndless names reads =>
      rw [reads] at parsed ⊢
      exact parsed
  | range first last parses endless names reads =>
      rw [reads] at parsed ⊢
      obtain ⟨result, ended, same⟩ := Option.map_eq_some_iff.mp parsed
      rw [rangeLoop_mono enough ended, Option.map_some, same]

theorem parseParts_mono {rounds more : Nat} (enough : rounds ≤ more)
    {parts : List (List Char)} {res : List UInt32}
    {answer : Except EventError (List UInt32)}
    (parsed : parseParts rounds parts res = some answer) :
    parseParts more parts res = some answer := by
  induction parts generalizing res with
  | nil => exact parsed
  | cons part parts ih =>
      rw [parseParts] at parsed ⊢
      cases first : parsePart rounds part res with
      | none =>
          rw [first] at parsed
          cases parsed
      | some between =>
          rw [first] at parsed
          rw [parsePart_mono enough first]
          cases between with
          | error thrown => exact parsed
          | ok result => exact ih parsed

/-- The loop over the parts ends unless it comes to a range that ends with
-1. -/
theorem parseParts_terminates_iff (parts : List (List Char))
    (res : List UInt32) :
    (∃ rounds answer, parseParts rounds parts res = some answer) ↔
      ¬ StopsAt PartParses EndlessPart parts := by
  induction parts generalizing res with
  | nil => exact iff_of_true ⟨0, .ok res, rfl⟩ stopsAt_nil
  | cons part parts ih =>
      rw [stopsAt_cons]
      rcases parsePart_ends part with
        ⟨parses, notEndless⟩ | ⟨endless, never⟩ |
          ⟨notParses, notEndless, thrown, throws⟩
      · obtain ⟨few, result, first⟩ := parsePart_of_parses parses res
        have rest : (∃ rounds answer,
            parseParts rounds (part :: parts) res = some answer) ↔
              ∃ rounds answer, parseParts rounds parts result = some answer := by
          constructor
          · rintro ⟨rounds, answer, parsed⟩
            have later := parseParts_mono (Nat.le_max_left rounds few) parsed
            rw [parseParts, first _ (Nat.le_max_right rounds few)] at later
            exact ⟨_, answer, later⟩
          · rintro ⟨rounds, answer, parsed⟩
            refine ⟨max rounds few, answer, ?_⟩
            rw [parseParts, first _ (Nat.le_max_right rounds few)]
            exact parseParts_mono (Nat.le_max_left rounds few) parsed
        rw [rest, ih]
        simp [parses, notEndless]
      · apply iff_of_false
        · rintro ⟨rounds, answer, parsed⟩
          rw [parseParts, never] at parsed
          cases parsed
        · exact not_not_intro (.inl endless)
      · apply iff_of_true
        · refine ⟨0, .error thrown, ?_⟩
          rw [parseParts, throws]
        · simp [notParses, notEndless]

theorem listParts_comma {part : List Char} (noComma : ',' ∉ part)
    (rest : List Char) :
    listParts (part ++ ',' :: rest) = part :: listParts rest := by
  induction part with
  | nil => rfl
  | cons c part ih =>
      rw [List.mem_cons, not_or] at noComma
      rw [List.cons_append, listParts, if_neg (Ne.symm noComma.1),
        ih noComma.2]

theorem listParts_last {part : List Char} (noComma : ',' ∉ part)
    (nonempty : part ≠ []) : listParts part = [part] := by
  induction part with
  | nil => exact absurd rfl nonempty
  | cons c part ih =>
      rw [List.mem_cons, not_or] at noComma
      rw [listParts, if_neg (Ne.symm noComma.1)]
      cases part with
      | nil => rfl
      | cons d part => rw [ih noComma.2 (List.cons_ne_nil d part)]

theorem BitItem.text_ne_nil (item : BitItem) : item.text ≠ [] := by
  cases item with
  | single n => exact n.nonempty
  | range n m => exact List.append_ne_nil_of_left_ne_nil n.nonempty _

theorem BitItem.comma_notMem_text (item : BitItem) : ',' ∉ item.text := by
  have digits : ∀ n : Numeral 10, ',' ∉ n.digits := by
    intro n member
    exact absurd (n.valid ',' member) (by decide)
  cases item with
  | single n => exact digits n
  | range n m =>
      rw [BitItem.text, List.mem_append, List.mem_cons]
      rintro (first | dash | last)
      · exact digits n first
      · exact absurd dash (by decide)
      · exact digits m last

theorem listParts_listText (items : List BitItem) :
    listParts (listText items) = items.map BitItem.text := by
  induction items with
  | nil => rfl
  | cons item items ih =>
      rw [listText_cons]
      cases items with
      | nil =>
          rw [tailText, List.append_nil]
          exact listParts_last item.comma_notMem_text item.text_ne_nil
      | cons next items =>
          rw [tailText, listParts_comma item.comma_notMem_text, ih]
          rfl

/-- An item whose numbers are below 2^31. -/
def BitItem.Small (item : BitItem) : Prop :=
  item.first < 2 ^ 31 ∧ item.last < 2 ^ 31

theorem numeral_isNoDash (n : Numeral 10) :
    ∀ c ∈ n.digits, decide (c ≠ '-') = true := by
  intro c member
  rw [decide_eq_true_eq]
  intro dash
  subst dash
  exact absurd (n.valid '-' member) (by decide)

theorem numeral_beforeDash (n : Numeral 10) (rest : List Char) :
    (n.digits ++ '-' :: rest).takeWhile (· ≠ '-') = n.digits := by
  rw [List.takeWhile_append_of_pos (numeral_isNoDash n),
    List.takeWhile_cons_of_neg (by decide), List.append_nil]

theorem numeral_fromDash (n : Numeral 10) (rest : List Char) :
    (n.digits ++ '-' :: rest).dropWhile (· ≠ '-') = '-' :: rest := by
  rw [List.dropWhile_append_of_pos (numeral_isNoDash n),
    List.dropWhile_cons_of_neg (by decide)]

theorem numeral_noDash (n : Numeral 10) :
    n.digits.dropWhile (· ≠ '-') = [] := by
  rw [List.dropWhile_eq_nil_iff]
  exact numeral_isNoDash n

theorem stoi_small {n : Numeral 10} (small : n.value < 2 ^ 31) :
    StrTol.stoi n.digits = .ok n.value := by
  rw [StrTol.stoi_numeral, if_pos small]

theorem toNat_ofInt_small {n : Nat} (small : n < 2 ^ 31) :
    (UInt32.ofInt n).toNat = n := by
  change ((n : Int) % 2 ^ 32).toNat % 2 ^ 32 = n
  omega

theorem BitItem.text_parses {item : BitItem} (small : item.Small) :
    PartParses item.text := by
  obtain ⟨smallFirst, smallLast⟩ := small
  unfold PartParses
  cases item with
  | single n =>
      rw [BitItem.text, numeral_noDash]
      exact ⟨n.value, stoi_small smallFirst⟩
  | range n m =>
      rw [BitItem.text, numeral_fromDash, numeral_beforeDash]
      refine ⟨n.value, m.value, stoi_small smallFirst, stoi_small smallLast, ?_⟩
      omega

theorem BitItem.text_names {item : BitItem} (small : item.Small)
    (cpuid : UInt32) :
    PartNames item.text cpuid ↔ item.Names cpuid.toNat := by
  obtain ⟨smallFirst, smallLast⟩ := small
  unfold PartNames
  cases item with
  | single n =>
      have value : (UInt32.ofInt n.value).toNat = n.value :=
        toNat_ofInt_small smallFirst
      rw [BitItem.text, numeral_noDash]
      simp only [stoi_small smallFirst, Except.ok.injEq, exists_eq_left',
        ← UInt32.toNat_inj, value]
      exact le_antisymm_iff.trans and_comm
  | range n m =>
      have lower : (UInt32.ofInt n.value).toNat = n.value :=
        toNat_ofInt_small smallFirst
      have upper : (UInt32.ofInt m.value).toNat = m.value :=
        toNat_ofInt_small smallLast
      rw [BitItem.text, numeral_fromDash, numeral_beforeDash]
      simp only [stoi_small smallFirst, stoi_small smallLast,
        Except.ok.injEq, UInt32.le_iff_toNat_le]
      constructor
      · rintro ⟨_, _, rfl, rfl, bounds⟩
        rw [lower, upper] at bounds
        exact bounds
      · intro named
        refine ⟨n.value, m.value, rfl, rfl, ?_⟩
        rw [lower, upper]
        exact named

theorem listText_parses {items : List BitItem}
    (small : ∀ item ∈ items, item.Small) : ListParses (listText items) := by
  intro part member
  rw [listParts_listText] at member
  obtain ⟨item, isItem, rfl⟩ := List.mem_map.mp member
  exact BitItem.text_parses (small item isItem)

theorem listText_names {items : List BitItem}
    (small : ∀ item ∈ items, item.Small) (cpuid : UInt32) :
    ListNames (listText items) cpuid ↔
      ∃ item ∈ items, item.Names cpuid.toNat := by
  rw [ListNames, listParts_listText]
  constructor
  · rintro ⟨part, member, named⟩
    obtain ⟨item, isItem, rfl⟩ := List.mem_map.mp member
    exact ⟨item, isItem, (BitItem.text_names (small item isItem) cpuid).mp named⟩
  · rintro ⟨item, isItem, named⟩
    exact ⟨item.text, List.mem_map_of_mem isItem,
      (BitItem.text_names (small item isItem) cpuid).mpr named⟩

theorem parseList_listText {items : List BitItem}
    (small : ∀ item ∈ items, item.Small) :
    ∃ rounds result, (∀ more, rounds ≤ more →
        parseList more (listText items) = some (.ok result)) ∧
      result.Pairwise (· < ·) ∧
        ∀ cpuid, cpuid ∈ result ↔ ∃ item ∈ items, item.Names cpuid.toNat := by
  obtain ⟨rounds, result, parsed⟩ :=
    parseList_of_parses (listText_parses small)
  have here := parsed rounds (Nat.le_refl rounds)
  refine ⟨rounds, result, parsed,
    parseParts_sorted List.Pairwise.nil here, fun cpuid => ?_⟩
  rw [← listText_names small]
  rcases parseList_cases (listText items) rounds with
    never | ⟨error, thrown⟩ | ⟨_, other, parsedToo, contents⟩
  · rw [here] at never
    cases never
  · rw [here] at thrown
    cases thrown
  · rw [here] at parsedToo
    cases parsedToo
    exact contents cpuid

/-- The reading of a list ends, and where the list is one of numbers and
ranges below 2^31, its result is the set of the numbers in it, whatever the
order of the items and however often they are repeated. -/
structure ParsedCompletely (list : List Char) : Prop where
  terminates : ∃ rounds answer, parseList rounds list = some answer
  contents : ∀ items, list = listText items → (∀ item ∈ items, item.Small) →
    ∃ rounds result, parseList rounds list = some (.ok result) ∧
      ∀ cpuid, cpuid ∈ result ↔ ∃ item ∈ items, item.Names cpuid.toNat
  anyOrder : ∀ items others, list = listText items →
    (∀ item ∈ items, item.Small) → (∀ item, item ∈ others ↔ item ∈ items) →
      ∃ rounds result, parseList rounds list = some (.ok result) ∧
        parseList rounds (listText others) = some (.ok result)

theorem parsedCompletely_iff (list : List Char) :
    ParsedCompletely list ↔
      ¬ StopsAt PartParses EndlessPart (listParts list) := by
  constructor
  · intro complete
    exact (parseParts_terminates_iff (listParts list) []).mp complete.terminates
  · intro ends
    constructor
    · exact (parseParts_terminates_iff (listParts list) []).mpr ends
    · rintro items rfl small
      obtain ⟨rounds, result, parsed, _, contents⟩ := parseList_listText small
      exact ⟨rounds, result, parsed rounds (Nat.le_refl rounds), contents⟩
    · rintro items others rfl small same
      obtain ⟨rounds, result, parsed, sorted, contents⟩ :=
        parseList_listText small
      obtain ⟨more, other, parsedToo, sortedToo, contentsToo⟩ :=
        parseList_listText fun item member => small item ((same item).mp member)
      have equal : other = result := by
        apply eq_of_sorted sortedToo sorted
        intro cpuid
        rw [contents, contentsToo]
        simp only [same]
      subst equal
      exact ⟨max rounds more, other, parsed _ (Nat.le_max_left rounds more),
        parsedToo _ (Nat.le_max_right rounds more)⟩

/-- The range from 0 to -1 is inserted for ever. -/
theorem minusOne_not_parsedCompletely :
    ¬ ParsedCompletely ['0', '-', '-', '1'] := by
  intro complete
  obtain ⟨rounds, answer, parsed⟩ := complete.terminates
  have never : parseList rounds ['0', '-', '-', '1'] = none := by
    change parseParts rounds [['0', '-', '-', '1']] [] = none
    have endless : parsePart rounds ['0', '-', '-', '1'] [] = none := by
      change (rangeLoop rounds 0 (0 - 1) []).map Except.ok = none
      rw [rangeLoop_diverges]
      rfl
    rw [parseParts, endless]
  rw [parsed] at never
  cases never

end Lo2s
