import Lo2s.ParseBitmask

/-!
# Lists of CPUs

`parse_list` reads comma separated numbers and ranges of numbers.  A range is
inserted by a loop over 32-bit numbers that runs as long as the counter is not
greater than the end of the range, which it never is if that is the greatest
number there is.
-/

namespace Lo2s

open Foundation

/-- Insertion into a `std::set<uint32_t>`. -/
def insertCpuid (cpuid : UInt32) : List UInt32 → List UInt32
  | [] => [cpuid]
  | first :: rest =>
      if cpuid < first then cpuid :: first :: rest
      else if cpuid = first then first :: rest
      else first :: insertCpuid cpuid rest

/-- `for (auto i = from; i <= to; ++i)`; there is no result where the loop has
not ended after a number of rounds. -/
def rangeLoop : Nat → UInt32 → UInt32 → List UInt32 → Option (List UInt32)
  | 0, _, _, _ => none
  | rounds + 1, i, last, res =>
      if i ≤ last then rangeLoop rounds (i + 1) last (insertCpuid i res)
      else some res

/-- The parts that `std::getline` reads: none behind the last comma. -/
def listParts : List Char → List (List Char)
  | [] => []
  | c :: rest =>
      if c = ',' then [] :: listParts rest
      else
        match listParts rest with
        | [] => [[c]]
        | part :: parts => (c :: part) :: parts

/-- A part of a list: a single number, or the numbers around a dash. -/
def parsePart (rounds : Nat) (part : List Char) (res : List UInt32) :
    Option (Except EventError (List UInt32)) :=
  match part.dropWhile (· ≠ '-') with
  | [] =>
      match numberOrThrow (StrTol.stoi part) with
      | .error thrown => some (.error thrown)
      | .ok value => some (.ok (insertCpuid (UInt32.ofInt value) res))
  | _ :: behind =>
      match numberOrThrow (StrTol.stoi (part.takeWhile (· ≠ '-'))) with
      | .error thrown => some (.error thrown)
      | .ok first =>
          match numberOrThrow (StrTol.stoi behind) with
          | .error thrown => some (.error thrown)
          | .ok last => (rangeLoop rounds (UInt32.ofInt first)
              (UInt32.ofInt last) res).map Except.ok

def parseParts (rounds : Nat) : List (List Char) → List UInt32 →
    Option (Except EventError (List UInt32))
  | [], res => some (.ok res)
  | part :: parts, res =>
      match parsePart rounds part res with
      | none => none
      | some (.error thrown) => some (.error thrown)
      | some (.ok res) => parseParts rounds parts res

/-- `parse_list`, with the rounds that each loop may take. -/
def parseList (rounds : Nat) (list : List Char) :
    Option (Except EventError (List UInt32)) :=
  parseParts rounds (listParts list) []

theorem mem_insertCpuid {cpuid other : UInt32} {res : List UInt32} :
    other ∈ insertCpuid cpuid res ↔ other = cpuid ∨ other ∈ res := by
  induction res with
  | nil => simp [insertCpuid]
  | cons first rest induction =>
      rw [insertCpuid]
      split_ifs with smaller same
      · simp
      · simp [same]
      · simp only [List.mem_cons, induction]
        exact or_left_comm

theorem rangeLoop_diverges (rounds : Nat) (i : UInt32) (res : List UInt32) :
    rangeLoop rounds i (0 - 1) res = none := by
  induction rounds generalizing i res with
  | zero => rfl
  | succ rounds induction =>
      have below : i ≤ 0 - 1 := by
        have bound := i.toNat_lt
        rw [UInt32.le_iff_toNat_le]
        change i.toNat ≤ 4294967295
        omega
      rw [rangeLoop, if_pos below]
      exact induction _ _

theorem rangeLoop_mono {rounds more : Nat} (enough : rounds ≤ more)
    {i last : UInt32} {res result : List UInt32}
    (ended : rangeLoop rounds i last res = some result) :
    rangeLoop more i last res = some result := by
  induction rounds generalizing more i res with
  | zero => cases ended
  | succ rounds induction =>
      obtain ⟨more, rfl⟩ : ∃ k, more = k + 1 := ⟨more - 1, by omega⟩
      rw [rangeLoop] at ended ⊢
      by_cases goesOn : i ≤ last
      · rw [if_pos goesOn] at ended ⊢
        exact induction (Nat.le_of_succ_le_succ enough) ended
      · rwa [if_neg goesOn] at ended ⊢

theorem rangeLoop_spec {last : UInt32} (ends : last ≠ 0 - 1) (i : UInt32)
    (res : List UInt32) :
    ∃ rounds result, rangeLoop rounds i last res = some result ∧
      ∀ cpuid, cpuid ∈ result ↔
        cpuid ∈ res ∨ i ≤ cpuid ∧ cpuid ≤ last := by
  generalize left : last.toNat + 1 - i.toNat = n
  induction n generalizing i res with
  | zero =>
      have passed : ¬ i ≤ last := by
        rw [UInt32.le_iff_toNat_le]
        omega
      refine ⟨1, res, if_neg passed, fun cpuid => ?_⟩
      have none : ¬ (i ≤ cpuid ∧ cpuid ≤ last) := fun both =>
        passed (UInt32.le_trans both.1 both.2)
      simp [none]
  | succ n induction =>
      have goesOn : i ≤ last := by
        rw [UInt32.le_iff_toNat_le]
        omega
      have small : last.toNat < 4294967295 := by
        have bound := last.toNat_lt
        have different : last.toNat ≠ 4294967295 := fun same =>
          ends (UInt32.toNat_inj.mp same)
        omega
      have next : (i + 1).toNat = i.toNat + 1 := by
        rw [UInt32.le_iff_toNat_le] at goesOn
        rw [UInt32.toNat_add]
        change (i.toNat + 1) % 4294967296 = i.toNat + 1
        omega
      obtain ⟨rounds, result, ended, contents⟩ :=
        induction (i + 1) (insertCpuid i res) (by omega)
      refine ⟨rounds + 1, result, by rw [rangeLoop, if_pos goesOn, ended],
        fun cpuid => ?_⟩
      rw [contents, mem_insertCpuid]
      simp only [UInt32.le_iff_toNat_le, next, ← UInt32.toNat_inj] at goesOn ⊢
      by_cases old : cpuid ∈ res
      · simp only [old, or_true, true_or]
      · simp only [old, or_false, false_or]
        omega

theorem rangeLoop_contents {rounds : Nat} {i last : UInt32}
    (ends : last ≠ 0 - 1) {res result : List UInt32}
    (ended : rangeLoop rounds i last res = some result) (cpuid : UInt32) :
    cpuid ∈ result ↔ cpuid ∈ res ∨ i ≤ cpuid ∧ cpuid ≤ last := by
  obtain ⟨enough, other, endedToo, contents⟩ := rangeLoop_spec ends i res
  have first := rangeLoop_mono (Nat.le_max_left rounds enough) ended
  have second := rangeLoop_mono (Nat.le_max_right rounds enough) endedToo
  cases first.symm.trans second
  exact contents cpuid

/-- A part that is read: its numbers are there and within the integers, and a
range does not end at -1, which is the greatest number without a sign. -/
def PartParses (part : List Char) : Prop :=
  match part.dropWhile (· ≠ '-') with
  | [] => ∃ value, StrTol.stoi part = .ok value
  | _ :: behind => ∃ first last,
      StrTol.stoi (part.takeWhile (· ≠ '-')) = .ok first ∧
        StrTol.stoi behind = .ok last ∧ last ≠ -1

/-- The numbers a part stands for. -/
def PartNames (part : List Char) (cpuid : UInt32) : Prop :=
  match part.dropWhile (· ≠ '-') with
  | [] => ∃ value, StrTol.stoi part = .ok value ∧ cpuid = UInt32.ofInt value
  | _ :: behind => ∃ first last,
      StrTol.stoi (part.takeWhile (· ≠ '-')) = .ok first ∧
        StrTol.stoi behind = .ok last ∧
          UInt32.ofInt first ≤ cpuid ∧ cpuid ≤ UInt32.ofInt last

/-- A range that ends with -1. -/
def EndlessPart (part : List Char) : Prop :=
  match part.dropWhile (· ≠ '-') with
  | [] => False
  | _ :: behind => ∃ first,
      StrTol.stoi (part.takeWhile (· ≠ '-')) = .ok first ∧
        StrTol.stoi behind = .ok (-1)

def ListParses (list : List Char) : Prop :=
  ∀ part ∈ listParts list, PartParses part

def ListNames (list : List Char) (cpuid : UInt32) : Prop :=
  ∃ part ∈ listParts list, PartNames part cpuid

theorem ofInt_ne_greatest {text : List Char} {value : Int}
    (read : StrTol.stoi text = .ok value) (different : value ≠ -1) :
    UInt32.ofInt value ≠ 0 - 1 := by
  intro same
  obtain ⟨low, high⟩ := StrTol.fit_ok read
  have numbers : (value % 2 ^ 32).toNat % 2 ^ 32 = 4294967295 := by
    rw [← UInt32.toNat_ofNat']
    exact congrArg UInt32.toNat same
  omega

/-- A part is a text with an exception, a number or a range, whatever has been
read before. -/
inductive PartReads (part : List Char) : Prop where
  | throws (error : NumberError) (notParses : ¬ PartParses part)
      (notEndless : ¬ EndlessPart part)
      (reads : ∀ rounds res,
        parsePart rounds part res = some (.error (.number error)))
  | number (cpuid : UInt32) (parses : PartParses part)
      (notEndless : ¬ EndlessPart part)
      (names : ∀ other, PartNames part other ↔ other = cpuid)
      (reads : ∀ rounds res,
        parsePart rounds part res = some (.ok (insertCpuid cpuid res)))
  | range (first last : UInt32) (parses : PartParses part ↔ last ≠ 0 - 1)
      (endless : EndlessPart part ↔ last = 0 - 1)
      (names : ∀ other, PartNames part other ↔ first ≤ other ∧ other ≤ last)
      (reads : ∀ rounds res, parsePart rounds part res =
        (rangeLoop rounds first last res).map Except.ok)

theorem ofInt_eq_greatest_iff {text : List Char} {value : Int}
    (read : StrTol.stoi text = .ok value) :
    UInt32.ofInt value = 0 - 1 ↔ value = -1 := by
  constructor
  · intro same
    by_contra different
    exact ofInt_ne_greatest read different same
  · intro same
    rw [same]
    rfl

/-- The ways to read a part, which all facts about `parsePart` follow from. -/
theorem partReads (part : List Char) : PartReads part := by
  cases shape : part.dropWhile (· ≠ '-') with
  | nil =>
      have notEndless : ¬ EndlessPart part := by
        simp only [EndlessPart, shape, not_false_eq_true]
      cases read : StrTol.stoi part with
      | error error =>
          apply PartReads.throws error _ notEndless
          · intro rounds res
            simp only [parsePart, shape, read, numberOrThrow]
          · simp only [PartParses, shape, read]
            simp
      | ok value =>
          apply PartReads.number (UInt32.ofInt value) _ notEndless
          · intro other
            simp only [PartNames, shape, read]
            simp
          · intro rounds res
            simp only [parsePart, shape, read, numberOrThrow]
          · simp only [PartParses, shape, read]
            simp
  | cons dash behind =>
      cases readFirst : StrTol.stoi (part.takeWhile (· ≠ '-')) with
      | error error =>
          apply PartReads.throws error
          · simp only [PartParses, shape, readFirst]
            simp
          · simp only [EndlessPart, shape, readFirst]
            simp
          · intro rounds res
            simp only [parsePart, shape, readFirst, numberOrThrow]
      | ok first =>
          cases readLast : StrTol.stoi behind with
          | error error =>
              apply PartReads.throws error
              · simp only [PartParses, shape, readLast]
                simp
              · simp only [EndlessPart, shape, readLast]
                simp
              · intro rounds res
                simp only [parsePart, shape, readFirst, readLast, numberOrThrow]
          | ok last =>
              apply PartReads.range (UInt32.ofInt first) (UInt32.ofInt last)
              · rw [Ne, ofInt_eq_greatest_iff readLast]
                simp only [PartParses, shape, readFirst, readLast]
                simp
              · rw [ofInt_eq_greatest_iff readLast]
                simp only [EndlessPart, shape, readFirst, readLast]
                simp
              · intro other
                simp only [PartNames, shape, readFirst, readLast]
                simp
              · intro rounds res
                simp only [parsePart, shape, readFirst, readLast, numberOrThrow]

/-- A part that is read adds its numbers; any other one ends in an exception of
a conversion, or never. -/
theorem parsePart_cases (part : List Char) (rounds : Nat) (res : List UInt32) :
    parsePart rounds part res = none ∨
      (∃ error, parsePart rounds part res = some (.error (.number error))) ∨
        PartParses part ∧ ∃ result,
          parsePart rounds part res = some (.ok result) ∧
            ∀ cpuid, cpuid ∈ result ↔ cpuid ∈ res ∨ PartNames part cpuid := by
  cases partReads part with
  | throws error notParses notEndless reads =>
      exact .inr (.inl ⟨error, reads rounds res⟩)
  | number cpuid parses notEndless names reads =>
      refine .inr (.inr ⟨parses, _, reads rounds res, fun other => ?_⟩)
      rw [mem_insertCpuid, names, or_comm]
  | range first last parses endless names reads =>
      rw [reads]
      by_cases greatest : last = 0 - 1
      · left
        rw [greatest, rangeLoop_diverges]
        rfl
      · cases ended : rangeLoop rounds first last res with
        | none => exact .inl rfl
        | some result =>
            refine .inr (.inr ⟨parses.mpr greatest, result, rfl,
              fun cpuid => ?_⟩)
            rw [rangeLoop_contents greatest ended, names]

theorem parsePart_of_parses {part : List Char} (parses : PartParses part)
    (res : List UInt32) :
    ∃ rounds result, ∀ more, rounds ≤ more →
      parsePart more part res = some (.ok result) := by
  cases partReads part with
  | throws error notParses notEndless reads => exact absurd parses notParses
  | number cpuid isNumber notEndless names reads =>
      exact ⟨0, _, fun more _ => reads more res⟩
  | range first last isRange endless names reads =>
      obtain ⟨rounds, result, ended, _⟩ :=
        rangeLoop_spec (isRange.mp parses) first res
      refine ⟨rounds, result, fun more enough => ?_⟩
      rw [reads, rangeLoop_mono enough ended, Option.map_some]

theorem parseParts_cases (parts : List (List Char)) (rounds : Nat)
    (res : List UInt32) :
    parseParts rounds parts res = none ∨
      (∃ error, parseParts rounds parts res = some (.error (.number error))) ∨
        (∀ part ∈ parts, PartParses part) ∧ ∃ result,
          parseParts rounds parts res = some (.ok result) ∧
            ∀ cpuid, cpuid ∈ result ↔
              cpuid ∈ res ∨ ∃ part ∈ parts, PartNames part cpuid := by
  induction parts generalizing res with
  | nil =>
      refine .inr (.inr ⟨fun _ none => absurd none List.not_mem_nil, res, rfl,
        fun cpuid => ?_⟩)
      simp
  | cons part parts induction =>
      rw [parseParts]
      rcases parsePart_cases part rounds res with
        never | ⟨error, thrown⟩ | ⟨parses, between, parsed, named⟩
      · exact .inl (by simp only [never])
      · exact .inr (.inl ⟨error, by simp only [thrown]⟩)
      · simp only [parsed]
        rcases induction between with
          never | thrown | ⟨all, result, rest, contents⟩
        · exact .inl never
        · exact .inr (.inl thrown)
        · refine .inr (.inr ⟨List.forall_mem_cons.mpr ⟨parses, all⟩, result,
            rest, fun cpuid => ?_⟩)
          rw [contents, named, List.exists_mem_cons_iff, or_assoc]

theorem parseParts_of_parses {parts : List (List Char)}
    (parses : ∀ part ∈ parts, PartParses part) (res : List UInt32) :
    ∃ rounds result, ∀ more, rounds ≤ more →
      parseParts more parts res = some (.ok result) := by
  induction parts generalizing res with
  | nil => exact ⟨0, res, fun _ _ => rfl⟩
  | cons part parts induction =>
      obtain ⟨few, between, first⟩ :=
        parsePart_of_parses (parses part List.mem_cons_self) res
      obtain ⟨many, result, rest⟩ := induction
        (fun other member => parses other (List.mem_cons_of_mem part member))
        between
      refine ⟨max few many, result, fun more enough => ?_⟩
      rw [parseParts, first more (le_of_max_le_left enough)]
      exact rest more (le_of_max_le_right enough)

/-- A list is read completely, or its reading ends in an exception of a
conversion, or never. -/
theorem parseList_cases (list : List Char) (rounds : Nat) :
    parseList rounds list = none ∨
      (∃ error, parseList rounds list = some (.error (.number error))) ∨
        ListParses list ∧ ∃ result,
          parseList rounds list = some (.ok result) ∧
            ∀ cpuid, cpuid ∈ result ↔ ListNames list cpuid := by
  rcases parseParts_cases (listParts list) rounds [] with
    never | thrown | ⟨all, result, parsed, contents⟩
  · exact .inl never
  · exact .inr (.inl thrown)
  · refine .inr (.inr ⟨all, result, parsed, fun cpuid => ?_⟩)
    rw [contents]
    exact or_iff_right List.not_mem_nil

theorem parseList_of_parses {list : List Char} (parses : ListParses list) :
    ∃ rounds result, ∀ more, rounds ≤ more →
      parseList more list = some (.ok result) :=
  parseParts_of_parses parses []

end Lo2s
