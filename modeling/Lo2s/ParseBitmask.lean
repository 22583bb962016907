import Lo2s.EventResolver
import Lo2s.Foundation.LoopExit
import Lo2s.Foundation.StrTol
import Lo2s.Foundation.Word

/-!
# Descriptions of bit fields

The kernel describes the bits of an event parameter by a list of positions and
ranges of positions.  `parse_bitmask` finds the ranges with a regular expression
whose second half, the dash and what follows it, is not optional: positions that
stand alone are never seen.
-/

namespace Lo2s

open Foundation Scan

/-- What ends the reading of an event early: an `EventAttr::InvalidEvent`, an
exception of a conversion, or an operation without a defined result. -/
inductive EventError where
  | invalidEvent (what : String)
  | number (error : NumberError)
  | undefined
  deriving DecidableEq, Repr

namespace EventError

/-- The constructor of `InvalidEvent`. -/
def invalid (eventDescription : String) : EventError :=
  .invalidEvent ("Invalid event: " ++ eventDescription)

/-- The only exception that callers take for an event that is not there. -/
def IsInvalid (thrown : EventError) : Prop :=
  ∃ what, thrown = .invalidEvent what

theorem isInvalid_invalid (eventDescription : String) :
    (invalid eventDescription).IsInvalid := ⟨_, rfl⟩

theorem not_isInvalid_number (error : NumberError) :
    ¬ (number error).IsInvalid := by
  intro invalid
  obtain ⟨what, same⟩ := invalid
  cases same

theorem not_isInvalid_undefined : ¬ undefined.IsInvalid := by
  intro invalid
  obtain ⟨what, same⟩ := invalid
  cases same

end EventError

/-- A conversion whose exceptions are not caught. -/
def numberOrThrow : Except NumberError Int → Except EventError Int
  | .ok value => .ok value
  | .error error => .error (.number error)

/-- A match of `(\d+)?(?:-(\d+))`: its groups, of which the first may be
missing. -/
structure BitMatch where
  first : List Char
  last : List Char

/-- The leftmost match of the expression and the text behind it. -/
def searchBits : List Char → Option (BitMatch × List Char)
  | [] => none
  | c :: rest =>
      let first := (c :: rest).takeWhile (isDigit 10)
      match (c :: rest).dropWhile (isDigit 10) with
      | '-' :: behind =>
          match many1 (isDigit 10) behind with
          | some (last, suffix) => some (⟨first, last⟩, suffix)
          | none => searchBits rest
      | _ => searchBits rest

/-- The matches of the iterator; each is longer than one character. -/
def bitMatches : Nat → List Char → List BitMatch
  | 0, _ => []
  | fuel + 1, text =>
      match searchBits text with
      | none => []
      | some (found, suffix) => found :: bitMatches fuel suffix

/-- The bits from `start` to `end`, in 32-bit arithmetic.  Adding one to the
largest integer has no result, neither have the shifts by a negative number and
by all 64 places. -/
def bitsOf (start last : Int) : Except EventError UInt64 :=
  if last = 2 ^ 31 - 1 then .error .undefined
  else
    let len := last + 1 - start
    if start < 0 ∨ last > 64 - 1 ∨ len > 64 then
      .error (.invalid "invalid config mask")
    else if len < 0 ∨ start = 64 then .error .undefined
    else
      let bits : UInt64 :=
        if len = 64 then 0 - 1 else (1 <<< UInt64.ofNat len.toNat) - 1
      .ok (bits <<< UInt64.ofNat start.toNat)

/-- What a match adds to the mask. -/
def matchBits (found : BitMatch) : Except EventError UInt64 :=
  match numberOrThrow (StrTol.stoi found.first) with
  | .error thrown => .error thrown
  | .ok start =>
      match numberOrThrow (StrTol.stoi found.last) with
      | .error thrown => .error thrown
      | .ok last => bitsOf start last

/-- The body of the loop over the matches. -/
def maskStep (mask : UInt64) (found : BitMatch) : Except EventError UInt64 :=
  match matchBits found with
  | .error thrown => .error thrown
  | .ok bits => .ok (mask ||| bits)

def parseBitmask (format : List Char) : Except EventError UInt64 :=
  run maskStep 0 (bitMatches format.length format)

/-- An item of a list, as it is written. -/
inductive BitItem where
  | single (n : Numeral 10)
  | range (n m : Numeral 10)

namespace BitItem

def text : BitItem → List Char
  | single n => n.digits
  | range n m => n.digits ++ '-' :: m.digits

def first : BitItem → Nat
  | single n => n.value
  | range n _ => n.value

def last : BitItem → Nat
  | single n => n.value
  | range _ m => m.value

/-- The positions an item names. -/
def Names (item : BitItem) (position : Nat) : Prop :=
  item.first ≤ position ∧ position ≤ item.last

/-- An item that ascends and stays within 64 bits. -/
def Valid (item : BitItem) : Prop :=
  item.first ≤ item.last ∧ item.last ≤ 63

end BitItem

/-- A list with commas between the items. -/
def listText (items : List BitItem) : List Char :=
  [','].intercalate (items.map BitItem.text)

/-- What the description of a bit field promises. -/
def ParsedAsDescribed (items : List BitItem) : Prop :=
  ((∀ item ∈ items, item.Valid) → ∃ mask,
    parseBitmask (listText items) = .ok mask ∧
      ∀ position, bitAt mask position ↔ ∃ item ∈ items, item.Names position) ∧
  ((∃ item ∈ items, ¬ item.Valid) → ∃ what,
    parseBitmask (listText items) = .error (.invalidEvent what))

/-- What follows an item in a list. -/
def tailText : List BitItem → List Char
  | [] => []
  | item :: items => ',' :: listText (item :: items)

theorem listText_cons (item : BitItem) (items : List BitItem) :
    listText (item :: items) = item.text ++ tailText items := by
  cases items with
  | nil => simp [listText, tailText]
  | cons next items => simp [listText, tailText, List.intercalate_cons_cons]

theorem tailText_head (items : List BitItem) :
    ∀ c ∈ (tailText items).head?, isDigit 10 c = false := by
  cases items with
  | nil => exact fun _ none => by cases none
  | cons item items =>
      intro c first
      cases first
      decide

theorem searchBits_comma (text : List Char) :
    searchBits (',' :: text) = searchBits text := rfl

@[simp] theorem searchBits_tailText (items : List BitItem) :
    searchBits (tailText items) = searchBits (listText items) := by
  cases items with
  | nil => rfl
  | cons item items => exact searchBits_comma _

theorem searchBits_digits {digits : List Char}
    (valid : ∀ c ∈ digits, isDigit 10 c = true) (items : List BitItem) :
    searchBits (digits ++ tailText items) = searchBits (tailText items) := by
  induction digits with
  | nil => rfl
  | cons c digits induction =>
      have rest : ((c :: digits) ++ tailText items).dropWhile (isDigit 10) =
          tailText items := (run_append valid (tailText_head items)).2
      rw [← induction fun x member => valid x (List.mem_cons_of_mem c member),
        List.cons_append, searchBits]
      rw [List.cons_append] at rest
      rw [rest]
      cases items with
      | nil => rfl
      | cons item items => rfl

theorem searchBits_range (n m : Numeral 10) (items : List BitItem) :
    searchBits ((BitItem.range n m).text ++ tailText items) =
      some (⟨n.digits, m.digits⟩, tailText items) := by
  obtain ⟨c, digits, split⟩ := List.exists_cons_of_ne_nil n.nonempty
  have dash : ∀ x ∈ ('-' :: (m.digits ++ tailText items)).head?,
      isDigit 10 x = false := by
    intro x first
    cases first
    decide
  obtain ⟨taken, left⟩ := run_append n.valid dash
  rw [BitItem.text, List.append_assoc, List.cons_append]
  rw [split, List.cons_append] at taken left ⊢
  rw [searchBits, taken, left]
  simp only [m.many1_append (tailText_head items)]

/-- What the expression finds of an item. -/
def BitItem.seen : BitItem → Option BitMatch
  | single _ => none
  | range n m => some ⟨n.digits, m.digits⟩

theorem bitMatches_congr {left right : List Char}
    (same : searchBits left = searchBits right) (fuel : Nat) :
    bitMatches fuel left = bitMatches fuel right := by
  cases fuel with
  | zero => rfl
  | succ fuel => rw [bitMatches, bitMatches, same]

theorem bitMatches_listText (items : List BitItem) {fuel : Nat}
    (enough : (listText items).length ≤ fuel) :
    bitMatches fuel (listText items) = items.filterMap BitItem.seen := by
  induction items generalizing fuel with
  | nil =>
      cases fuel with
      | zero => rfl
      | succ fuel => rfl
  | cons item items induction =>
      have behind := bitMatches_congr (searchBits_tailText items)
      have shorter : (listText items).length ≤ (tailText items).length := by
        cases items with
        | nil => exact Nat.le_refl _
        | cons next items => exact Nat.le_succ _
      rw [listText_cons] at enough ⊢
      rw [List.length_append] at enough
      cases item with
      | single n =>
          have passed := bitMatches_congr (searchBits_digits n.valid items)
          rw [BitItem.text, passed, behind]
          exact induction (by omega)
      | range n m =>
          have long : 0 < (BitItem.range n m).text.length := by
            rw [BitItem.text, List.length_append, List.length_cons]
            omega
          obtain ⟨fuel, rfl⟩ : ∃ k, fuel = k + 1 := ⟨fuel - 1, by omega⟩
          rw [bitMatches, searchBits_range]
          change _ :: bitMatches fuel (tailText items) = _ :: _
          rw [behind, induction (by omega)]

theorem parseBitmask_listText (items : List BitItem) :
    parseBitmask (listText items) =
      run maskStep 0 (items.filterMap BitItem.seen) := by
  rw [parseBitmask, bitMatches_listText items (Nat.le_refl _)]

theorem bitsOf_ok {start last : Int} (low : 0 ≤ start) (inside : start ≤ 63)
    (high : last ≤ 63) (ascending : start ≤ last + 1) :
    ∃ bits, bitsOf start last = .ok bits ∧ ∀ position : Nat,
      bitAt bits position ↔ start ≤ position ∧ position ≤ last := by
  rw [bitsOf, if_neg (by omega)]
  simp only
  rw [if_neg (by omega), if_neg (by omega)]
  refine ⟨_, rfl, fun position => ?_⟩
  rw [bitAt_shiftLeft _ (by omega)]
  by_cases all : last + 1 - start = 64
  · have full : bitAt (0 - 1) (position - start.toNat) =
        decide (position - start.toNat < 64) :=
      Nat.testBit_two_pow_sub_one 64 _
    rw [if_pos all, full]
    simp only [Bool.and_eq_true, decide_eq_true_eq]
    omega
  · rw [if_neg all, bitAt_lowest (by omega)]
    simp only [Bool.and_eq_true, decide_eq_true_eq]
    omega

theorem bitsOf_invalid {start last : Int} (fits : last ≠ 2 ^ 31 - 1)
    (outside : start < 0 ∨ 63 < last) :
    bitsOf start last = .error (.invalid "invalid config mask") := by
  rw [bitsOf, if_neg fits, if_pos (by omega)]

theorem bitsOf_undefined {start last : Int}
    (odd : last = 2 ^ 31 - 1 ∨ 0 ≤ start ∧ last ≤ 63 ∧
      (63 < start ∨ last + 1 < start)) :
    bitsOf start last = .error .undefined := by
  rw [bitsOf]
  by_cases largest : last = 2 ^ 31 - 1
  · rw [if_pos largest]
  · rw [if_neg largest]
    simp only
    rw [if_neg (by omega), if_pos (by omega)]

namespace BitMatch

/-- Some property of the numbers of a match, which both have to be there. -/
def Numbers (found : BitMatch) (property : Int → Int → Prop) : Prop :=
  ∃ start last, StrTol.stoi found.first = .ok start ∧
    StrTol.stoi found.last = .ok last ∧ property start last

/-- The loop goes on behind a match and adds its positions, which are none
where it ends one below its start. -/
def Passes (found : BitMatch) : Prop :=
  found.Numbers fun start last =>
    0 ≤ start ∧ start ≤ 63 ∧ last ≤ 63 ∧ start ≤ last + 1

/-- The loop throws `InvalidEvent` at a match. -/
def Rejected (found : BitMatch) : Prop :=
  found.Numbers fun start last =>
    last ≠ 2 ^ 31 - 1 ∧ (start < 0 ∨ 63 < last)

theorem numbers_iff {found : BitMatch} {start last : Int}
    (first : StrTol.stoi found.first = .ok start)
    (second : StrTol.stoi found.last = .ok last)
    {property : Int → Int → Prop} :
    found.Numbers property ↔ property start last := by
  constructor
  · intro numbers
    obtain ⟨start', last', first', second', holds⟩ := numbers
    cases first.symm.trans first'
    cases second.symm.trans second'
    exact holds
  · intro holds
    exact ⟨start, last, first, second, holds⟩

/-- A match without two numbers ends in an exception of the conversion. -/
theorem numbers_or_thrown (found : BitMatch) :
    (∃ start last, StrTol.stoi found.first = .ok start ∧
      StrTol.stoi found.last = .ok last ∧
        matchBits found = bitsOf start last) ∨
    (∀ property, ¬ found.Numbers property) ∧
      ∃ error, matchBits found = .error (.number error) := by
  cases first : StrTol.stoi found.first with
  | error error =>
      refine .inr ⟨fun property numbers => ?_, error, ?_⟩
      · obtain ⟨start, last, first', _⟩ := numbers
        cases first.symm.trans first'
      · simp only [matchBits, first, numberOrThrow]
  | ok start =>
      cases second : StrTol.stoi found.last with
      | error error =>
          refine .inr ⟨fun property numbers => ?_, error, ?_⟩
          · obtain ⟨start, last, _, second', _⟩ := numbers
            cases second.symm.trans second'
          · simp only [matchBits, first, second, numberOrThrow]
      | ok last =>
          refine .inl ⟨start, last, rfl, rfl, ?_⟩
          simp only [matchBits, first, second, numberOrThrow]

theorem matchBits_ends (found : BitMatch) :
    Ends found.Passes found.Rejected EventError.IsInvalid
      (matchBits found) := by
  rcases found.numbers_or_thrown with
    ⟨start, last, first, second, computed⟩ | ⟨none, error, computed⟩
  · rw [computed]
    refine (Ends.congr (numbers_iff first second)
      (numbers_iff first second)).mpr ?_
    by_cases passes : 0 ≤ start ∧ start ≤ 63 ∧ last ≤ 63 ∧ start ≤ last + 1
    · obtain ⟨low, inside, high, ascending⟩ := passes
      obtain ⟨bits, ok, _⟩ := bitsOf_ok low inside high ascending
      rw [ok]
      exact ⟨⟨low, inside, high, ascending⟩, by omega⟩
    · by_cases rejected : last ≠ 2 ^ 31 - 1 ∧ (start < 0 ∨ 63 < last)
      · rw [bitsOf_invalid rejected.1 rejected.2]
        exact ⟨passes, iff_of_true rejected (EventError.isInvalid_invalid _)⟩
      · rw [bitsOf_undefined (by omega)]
        exact ⟨passes,
          iff_of_false rejected EventError.not_isInvalid_undefined⟩
  · rw [computed]
    exact ⟨none _, iff_of_false (none _) (EventError.not_isInvalid_number _)⟩

theorem matchBits_of_passes {found : BitMatch} (passes : found.Passes) :
    ∃ bits, matchBits found = .ok bits ∧
      found.Numbers fun start last => ∀ position : Nat,
        bitAt bits position ↔ start ≤ position ∧ position ≤ last := by
  obtain ⟨start, last, first, second, low, inside, high, ascending⟩ := passes
  obtain ⟨bits, computed, positions⟩ := bitsOf_ok low inside high ascending
  refine ⟨bits, ?_, start, last, first, second, positions⟩
  simp only [matchBits, first, second, numberOrThrow, computed]

end BitMatch

theorem parseBitmask_ends (format : List Char) :
    Ends (∀ found ∈ bitMatches format.length format, found.Passes)
      (StopsAt BitMatch.Passes BitMatch.Rejected
        (bitMatches format.length format))
      EventError.IsInvalid (parseBitmask format) := by
  refine Ends.run (fun mask found => ?_) 0 _
  have ends := found.matchBits_ends
  rw [maskStep]
  cases computed : matchBits found with
  | error thrown =>
      rw [computed] at ends
      exact ends
  | ok bits =>
      rw [computed] at ends
      exact ends

/-- Where every match passes, the mask has the positions of all of them. -/
theorem run_maskStep_of_passes {all : List BitMatch}
    (pass : ∀ found ∈ all, found.Passes) (mask : UInt64) :
    ∃ result, run maskStep mask all = .ok result ∧ ∀ position : Nat,
      bitAt result position ↔ bitAt mask position ∨
        ∃ found ∈ all, found.Numbers fun start last =>
          start ≤ position ∧ position ≤ last := by
  induction all generalizing mask with
  | nil => exact ⟨mask, rfl, fun position => by simp⟩
  | cons found rest induction =>
      obtain ⟨bits, computed, start, last, first, second, named⟩ :=
        BitMatch.matchBits_of_passes (pass found List.mem_cons_self)
      obtain ⟨result, looped, positions⟩ := induction
        (fun other member => pass other (List.mem_cons_of_mem found member))
        (mask ||| bits)
      refine ⟨result, ?_, fun position => ?_⟩
      · simp only [run, maskStep, computed]
        exact looped
      · rw [positions, bitAt_or, Bool.or_eq_true, named, or_assoc,
          List.exists_mem_cons_iff, BitMatch.numbers_iff first second]

theorem numbers_numerals {n m : Numeral 10} {property : Int → Int → Prop} :
    (⟨n.digits, m.digits⟩ : BitMatch).Numbers property ↔
      n.value < 2 ^ 31 ∧ m.value < 2 ^ 31 ∧ property n.value m.value := by
  by_cases small : n.value < 2 ^ 31 ∧ m.value < 2 ^ 31
  · have first : StrTol.stoi n.digits = .ok n.value := by
      rw [StrTol.stoi_numeral, if_pos small.1]
    have second : StrTol.stoi m.digits = .ok m.value := by
      rw [StrTol.stoi_numeral, if_pos small.2]
    rw [BitMatch.numbers_iff first second]
    simp only [small, true_and]
  · constructor
    · intro numbers
      obtain ⟨start, last, first, second, _⟩ := numbers
      rw [StrTol.stoi_numeral] at first second
      split_ifs at first second with firstFits secondFits
      exact absurd ⟨firstFits, secondFits⟩ small
    · intro holds
      exact absurd ⟨holds.1, holds.2.1⟩ small

namespace BitItem

/-- The loop goes on behind an item: it does not see it, or adds its positions,
which are none where the range ends one below its start. -/
def Passes : BitItem → Prop
  | single _ => True
  | range n m => m.value ≤ 63 ∧ n.value ≤ 63 ∧ n.value ≤ m.value + 1

/-- The loop throws `InvalidEvent` at an item. -/
def Rejected : BitItem → Prop
  | single _ => False
  | range n m =>
      n.value < 2 ^ 31 ∧ 63 < m.value ∧ m.value < 2 ^ 31 - 1

theorem passes_range {n m : Numeral 10} :
    (⟨n.digits, m.digits⟩ : BitMatch).Passes ↔ (range n m).Passes := by
  rw [BitMatch.Passes, numbers_numerals, Passes]
  omega

theorem rejected_range {n m : Numeral 10} :
    (⟨n.digits, m.digits⟩ : BitMatch).Rejected ↔ (range n m).Rejected := by
  rw [BitMatch.Rejected, numbers_numerals, Rejected]
  omega

theorem Valid.passes {item : BitItem} (valid : item.Valid) :
    item.Passes := by
  obtain ⟨ascending, inside⟩ := valid
  cases item with
  | single n => trivial
  | range n m =>
      simp only [first, last] at ascending inside
      exact ⟨inside, by omega, by omega⟩

end BitItem

theorem stopsAt_seen (items : List BitItem) :
    StopsAt BitMatch.Passes BitMatch.Rejected (items.filterMap BitItem.seen) ↔
      StopsAt BitItem.Passes BitItem.Rejected items := by
  induction items with
  | nil => exact iff_of_false stopsAt_nil stopsAt_nil
  | cons item items induction =>
      cases item with
      | single n =>
          rw [stopsAt_cons, ← induction]
          exact ⟨fun stops => .inr ⟨trivial, stops⟩, fun either =>
            either.elim False.elim fun stops => stops.2⟩
      | range n m =>
          change StopsAt _ _ (_ :: items.filterMap BitItem.seen) ↔ _
          rw [stopsAt_cons, stopsAt_cons, induction, BitItem.passes_range,
            BitItem.rejected_range]

/-- When the parser does what the description of the bit field says: positions
that stand alone are named by a range as well, or, where some item is not valid,
the first range at which the loop does not go on ends behind bit 63 and is
within the integers. -/
def SeenByRanges (items : List BitItem) : Prop :=
  ((∀ item ∈ items, item.Valid) → ∀ n, .single n ∈ items →
    ∃ a b, .range a b ∈ items ∧ (BitItem.range a b).Names n.value) ∧
  ((∃ item ∈ items, ¬ item.Valid) →
    StopsAt BitItem.Passes BitItem.Rejected items)

theorem parseBitmask_of_valid {items : List BitItem}
    (valid : ∀ item ∈ items, item.Valid) :
    ∃ mask, parseBitmask (listText items) = .ok mask ∧ ∀ position,
      bitAt mask position ↔
        ∃ a b, .range a b ∈ items ∧ (BitItem.range a b).Names position := by
  rw [parseBitmask_listText]
  have pass : ∀ found ∈ items.filterMap BitItem.seen, found.Passes := by
    intro found member
    obtain ⟨item, inItems, seen⟩ := List.mem_filterMap.mp member
    cases item with
    | single n => cases seen
    | range n m =>
        cases seen
        exact BitItem.passes_range.mpr (valid _ inItems).passes
  obtain ⟨mask, computed, positions⟩ := run_maskStep_of_passes pass 0
  refine ⟨mask, computed, fun position => ?_⟩
  rw [positions, bitAt_zero]
  constructor
  · intro either
    obtain ⟨found, member, named⟩ :=
      either.resolve_left Bool.false_ne_true
    obtain ⟨item, inItems, seen⟩ := List.mem_filterMap.mp member
    cases item with
    | single n => cases seen
    | range n m =>
        cases seen
        obtain ⟨_, _, low, high⟩ := numbers_numerals.mp named
        exact ⟨n, m, inItems, by exact_mod_cast low, by exact_mod_cast high⟩
  · intro named
    obtain ⟨n, m, inItems, low, high⟩ := named
    refine .inr ⟨⟨n.digits, m.digits⟩,
      List.mem_filterMap.mpr ⟨_, inItems, rfl⟩, numbers_numerals.mpr ?_⟩
    obtain ⟨highest, lowest, _⟩ := (valid _ inItems).passes
    exact ⟨by omega, by omega, by exact_mod_cast low, by exact_mod_cast high⟩

theorem parsedAsDescribed_iff (items : List BitItem) :
    ParsedAsDescribed items ↔ SeenByRanges items := by
  refine and_congr (forall_congr' fun valid => ?_) (forall_congr' fun _ => ?_)
  · obtain ⟨mask, computed, positions⟩ := parseBitmask_of_valid valid
    constructor
    · intro described n member
      obtain ⟨same, found, exact⟩ := described
      cases found.symm.trans computed
      have named := (exact n.value).mpr
        ⟨.single n, member, Nat.le_refl _, Nat.le_refl _⟩
      exact (positions n.value).mp named
    · intro seen
      refine ⟨mask, computed,
        fun position => (positions position).trans ⟨?_, ?_⟩⟩
      · intro inRange
        obtain ⟨a, b, member, names⟩ := inRange
        exact ⟨.range a b, member, names⟩
      · intro named
        obtain ⟨item, member, names⟩ := named
        cases item with
        | single n =>
            obtain ⟨low, high⟩ := names
            have same : n.value = position := Nat.le_antisymm low high
            rw [← same]
            exact seen n member
        | range a b => exact ⟨a, b, member, names⟩
  · have ends := parseBitmask_ends (listText items)
    rw [bitMatches_listText items (Nat.le_refl _)] at ends
    rw [← stopsAt_seen, ← ends.handled_iff]
    constructor
    · intro invalid
      obtain ⟨what, thrown⟩ := invalid
      exact ⟨_, thrown, what, rfl⟩
    · intro invalid
      obtain ⟨thrown, same, what, rfl⟩ := invalid
      exact ⟨what, same⟩

/-- A position that stands alone: the mask has no bit. -/
theorem single_not_parsed :
    ¬ ParsedAsDescribed [.single ⟨['1', '8'], List.cons_ne_nil _ _,
      List.all_eq_true.mp rfl⟩] := by
  intro described
  obtain ⟨mask, computed, positions⟩ := described.1 (by
    intro item member
    rw [List.mem_singleton.mp member]
    exact ⟨Nat.le_refl _, by decide⟩)
  cases (show parseBitmask ['1', '8'] = .ok 0 from rfl).symm.trans computed
  have named := (positions 18).mpr
    ⟨_, List.mem_singleton_self _, by decide, by decide⟩
  cases named

end Lo2s
