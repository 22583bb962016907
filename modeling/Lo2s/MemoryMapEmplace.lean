import Lo2s.Foundation.Run
import Lo2s.MemoryMap

/-!
# What `emplace` does to the stored mappings

Stored ranges do not overlap, so an address finds the one entry whose range
contains it.  After `emplace` an entry is the new mapping or a piece of an old
one, and every address of an old entry is still in a piece of it, except where
the new mapping lies and except in front of a new mapping that starts inside
the entry and ends behind it.
-/

namespace Lo2s

open Foundation

namespace MemoryMap

variable {τ : Type}

/-- Every range ends before the ones behind it start. -/
abbrev Sorted (map : MemoryMap τ) : Prop := OrderedMap.Sorted Mapping.lt map

/-- `new` starts inside `old` and ends behind it. -/
def Truncates (new old : Mapping) : Prop :=
  old.range.start < new.range.start ∧ new.range.start < old.range.end_ ∧
    old.range.end_ < new.range.end_

instance (new old : Mapping) : Decidable (Truncates new old) :=
  inferInstanceAs (Decidable (_ ∧ _))

/-- `part` is what is left of `whole` beside the mapping `new`. -/
structure Piece (new : Mapping) (whole part : Mapping × τ) : Prop where
  content : part.2 = whole.2
  pgoff : part.1.pgoff = whole.1.pgoff
  within : whole.1.range.start ≤ part.1.range.start ∧
    part.1.range.end_ ≤ whole.1.range.end_
  start : part.1.range.start = whole.1.range.start ∨
    whole.1.range.start < new.range.end_ ∧
      part.1.range.start = new.range.end_

theorem Piece.refl (new : Mapping) (whole : Mapping × τ) :
    Piece new whole whole :=
  ⟨rfl, rfl, ⟨UInt64.le_refl _, UInt64.le_refl _⟩, .inl rfl⟩

theorem Piece.trans {new : Mapping} {whole middle part : Mapping × τ}
    (first : Piece new whole middle) (second : Piece new middle part) :
    Piece new whole part where
  content := second.content.trans first.content
  pgoff := second.pgoff.trans first.pgoff
  within :=
    ⟨UInt64.le_trans first.within.1 second.within.1,
      UInt64.le_trans second.within.2 first.within.2⟩
  start := by
    have within := first.within
    rcases second.start with same | ⟨cut, fromEnd⟩
    · rcases first.start with sameFirst | ⟨cut, fromEnd⟩
      · exact .inl (same.trans sameFirst)
      · exact .inr ⟨cut, same.trans fromEnd⟩
    · exact .inr ⟨UInt64.lt_of_le_of_lt within.1 cut, fromEnd⟩

theorem Piece.contains {new : Mapping} {whole part : Mapping × τ}
    (piece : Piece new whole part) {addr : Address}
    (inside : part.1.Contains addr) : whole.1.Contains addr :=
  ⟨UInt64.le_trans piece.within.1 inside.1,
    UInt64.lt_of_lt_of_le inside.2 piece.within.2⟩

theorem find_some {addr : Address} {map : MemoryMap τ}
    {place : Place (Mapping × τ)} (found : find addr map = some place) :
    map = place.list ∧ place.entry.1.Contains addr := by
  obtain ⟨list, overlap⟩ := OrderedMap.find?_some found
  exact ⟨list, Mapping.overlap_ofAddress.mp overlap⟩

theorem find_none {addr : Address} {map : MemoryMap τ} (sorted : Sorted map)
    (absent : find addr map = none) {x : Mapping × τ} (member : x ∈ map) :
    ¬ x.1.Contains addr := by
  intro inside
  have found := Mapping.isPoint_ofAddress.find? Mapping.lt_trans sorted member
    (Mapping.overlap_ofAddress.mpr inside)
  rw [find] at absent
  simp [absent] at found

/-- The entries beside a place do not contain the addresses of its range. -/
theorem not_contains_of_erase {place : Place (Mapping × τ)}
    (sorted : Sorted place.list) {addr : Address}
    (inside : place.entry.1.Contains addr) {x : Mapping × τ}
    (member : x ∈ place.erase) : ¬ x.1.Contains addr := by
  intro both
  obtain ⟨lower, upper⟩ := both
  obtain ⟨entryLower, entryUpper⟩ := inside
  rcases sorted.apart member with front | behind
  · rw [Mapping.lt_iff] at front
    grind
  · rw [Mapping.lt_iff] at behind
    grind

theorem eq_of_contains {map : MemoryMap τ} (sorted : Sorted map)
    {addr : Address} {x y : Mapping × τ} (left : x ∈ map)
    (leftInside : x.1.Contains addr) (right : y ∈ map)
    (rightInside : y.1.Contains addr) : x = y :=
  Mapping.isPoint_ofAddress.eq_of_overlap sorted
    left (Mapping.overlap_ofAddress.mpr leftInside)
    right (Mapping.overlap_ofAddress.mpr rightInside)

theorem entryAt_eq_some_iff {map : MemoryMap τ} (sorted : Sorted map)
    {addr : Address} {x : Mapping × τ} :
    entryAt addr map = some x ↔ x ∈ map ∧ x.1.Contains addr := by
  constructor
  · intro answer
    obtain ⟨place, found, rfl⟩ := Option.map_eq_some_iff.mp answer
    obtain ⟨list, inside⟩ := find_some found
    rw [list]
    exact ⟨place.entry_mem_list, inside⟩
  · intro both
    obtain ⟨member, inside⟩ := both
    exact Mapping.isPoint_ofAddress.find? Mapping.lt_trans sorted member
      (Mapping.overlap_ofAddress.mpr inside)

theorem emplaceKey_spec {map : MemoryMap τ} (sorted : Sorted map)
    {key : Mapping}
    (apart : ∀ x ∈ map, x.1.range.end_ ≤ key.range.start ∨
      key.range.end_ ≤ x.1.range.start) (content : τ) :
    ∃ result, emplaceKey key content map = .ok result ∧ Sorted result ∧
      ∀ x, x ∈ result ↔ x = (key, content) ∨ x ∈ map := by
  obtain ⟨result, emplaced, resultSorted, members⟩ :=
    OrderedMap.emplace_spec Mapping.lt_trans sorted
      (fun x member => by simpa using apart x member) content
  exact ⟨result, by simp [emplaceKey, emplaced], resultSorted, members⟩

/-- A key within the range of an erased entry fits where that entry was. -/
theorem apart_of_within {place : Place (Mapping × τ)}
    (sorted : Sorted place.list) {key : Mapping}
    (within : place.entry.1.range.start ≤ key.range.start ∧
      key.range.end_ ≤ place.entry.1.range.end_) {x : Mapping × τ}
    (member : x ∈ place.erase) :
    x.1.range.end_ ≤ key.range.start ∨ key.range.end_ ≤ x.1.range.start := by
  rcases sorted.apart member with front | behind
  · rw [Mapping.lt_iff] at front
    exact .inl (UInt64.le_trans front within.1)
  · rw [Mapping.lt_iff] at behind
    exact .inr (UInt64.le_trans within.2 behind)

theorem emplaceKey_within {place : Place (Mapping × τ)}
    (sorted : Sorted place.list) {key : Mapping}
    (within : place.entry.1.range.start ≤ key.range.start ∧
      key.range.end_ ≤ place.entry.1.range.end_) (content : τ) :
    ∃ result, emplaceKey key content place.erase = .ok result ∧
      Sorted result ∧ ∀ x, x ∈ result ↔ x = (key, content) ∨ x ∈ place.erase :=
  emplaceKey_spec sorted.erase (fun _ => apart_of_within sorted within) content

/-- The effect of `emplace` on the entries of a map. -/
structure Emplaced (new : Mapping) (toEmplace : τ)
    (map result : MemoryMap τ) : Prop where
  sorted : Sorted result
  stored : (new, toEmplace) ∈ result
  sound : ∀ x ∈ result, x = (new, toEmplace) ∨ ∃ whole ∈ map,
    Piece new whole x ∧ ∀ addr, x.1.Contains addr → ¬ Truncates new whole.1
  complete : ∀ whole ∈ map, ∀ addr, whole.1.Contains addr →
    ¬ new.Contains addr → ¬ Truncates new whole.1 →
      ∃ x ∈ result, x.1.Contains addr ∧ Piece new whole x

/-- The new mapping reaches no further than an old one around it. -/
theorem not_truncates_of_around {new : Mapping} {place : Place (Mapping × τ)}
    (sorted : Sorted place.list)
    (around : place.entry.1.range.start ≤ new.range.start ∧
      new.range.end_ ≤ place.entry.1.range.end_) {whole : Mapping × τ}
    (member : whole ∈ place.list) : ¬ Truncates new whole.1 := by
  obtain ⟨lower, upper⟩ := around
  rintro ⟨cutLower, cutUpper, cutEnd⟩
  have same := eq_of_contains sorted member
    ⟨UInt64.le_of_lt cutLower, cutUpper⟩ place.entry_mem_list
    ⟨lower, UInt64.lt_of_lt_of_le (UInt64.lt_trans cutUpper cutEnd) upper⟩
  subst same
  exact absurd cutEnd (UInt64.not_lt.mpr upper)

theorem splitAround_spec {new : Mapping}
    {place : Place (Mapping × τ)} (sorted : Sorted place.list)
    (inside : place.entry.1.range.start ≤ new.range.start ∧
      new.range.end_ ≤ place.entry.1.range.end_) (toEmplace : τ) :
    ∃ result, splitAround new toEmplace place = .ok result ∧
      Emplaced new toEmplace place.list result := by
  obtain ⟨lower, upper⟩ := inside
  have ordered := new.range.ordered
  let front : Mapping × τ := (⟨⟨place.entry.1.range.start, new.range.start,
    lower⟩, place.entry.1.pgoff⟩, place.entry.2)
  let back : Mapping × τ := (⟨⟨new.range.end_, place.entry.1.range.end_,
    upper⟩, place.entry.1.pgoff⟩, place.entry.2)
  have frontWithin : place.entry.1.range.start ≤ front.1.range.start ∧
      front.1.range.end_ ≤ place.entry.1.range.end_ :=
    ⟨UInt64.le_refl _, UInt64.le_trans ordered upper⟩
  have backWithin : place.entry.1.range.start ≤ back.1.range.start ∧
      back.1.range.end_ ≤ place.entry.1.range.end_ :=
    ⟨UInt64.le_trans lower ordered, UInt64.le_refl _⟩
  obtain ⟨first, firstEmplaced, firstSorted, firstMembers⟩ :=
    emplaceKey_within sorted frontWithin front.2
  obtain ⟨second, secondEmplaced, secondSorted, secondMembers⟩ :=
    emplaceKey_spec firstSorted
      (show ∀ x ∈ first, x.1.range.end_ ≤ new.range.start ∨
          new.range.end_ ≤ x.1.range.start by
        intro x member
        rcases (firstMembers x).mp member with rfl | beside
        · exact .inl (UInt64.le_refl _)
        · exact apart_of_within sorted ⟨lower, upper⟩ beside) toEmplace
  obtain ⟨third, thirdEmplaced, thirdSorted, thirdMembers⟩ :=
    emplaceKey_spec secondSorted
      (show ∀ x ∈ second, x.1.range.end_ ≤ back.1.range.start ∨
          back.1.range.end_ ≤ x.1.range.start by
        intro x member
        rcases (secondMembers x).mp member with rfl | old
        · exact .inl (UInt64.le_refl _)
        · rcases (firstMembers x).mp old with rfl | beside
          · exact .inl ordered
          · exact apart_of_within sorted backWithin beside) back.2
  have members : ∀ x, x ∈ third ↔
      x = back ∨ x = (new, toEmplace) ∨ x = front ∨ x ∈ place.erase := by
    intro x
    rw [thirdMembers, secondMembers, firstMembers]
  refine ⟨third, ?_, ?_⟩
  · simp only [splitAround, Range.ofBounds_eq_ok lower,
      Range.ofBounds_eq_ok upper, bind, Except.bind]
    simp only [front] at firstEmplaced
    simp only [back] at thirdEmplaced
    simp only [firstEmplaced, secondEmplaced, thirdEmplaced]
  · have notTruncated : ∀ whole ∈ place.list, ¬ Truncates new whole.1 :=
      fun whole => not_truncates_of_around sorted ⟨lower, upper⟩
    have entry := place.entry_mem_list
    have frontPiece : Piece new place.entry front :=
      ⟨rfl, rfl, frontWithin, .inl rfl⟩
    have backPiece : Piece new place.entry back := by
      refine ⟨rfl, rfl, backWithin, ?_⟩
      by_cases whole : place.entry.1.range.start = new.range.end_
      · exact .inl whole.symm
      · exact .inr ⟨UInt64.lt_of_le_of_ne backWithin.1 whole, rfl⟩
    refine ⟨thirdSorted, (members _).mpr (.inr (.inl rfl)), ?_, ?_⟩
    · intro x member
      rcases (members x).mp member with rfl | rfl | rfl | beside
      · exact .inr ⟨_, entry, backPiece, fun _ _ => notTruncated _ entry⟩
      · exact .inl rfl
      · exact .inr ⟨_, entry, frontPiece, fun _ _ => notTruncated _ entry⟩
      · have old := Place.mem_list.mpr (.inr beside)
        exact .inr ⟨x, old, .refl new x, fun _ _ => notTruncated x old⟩
    · intro whole member addr contains outside _
      rcases Place.mem_list.mp member with rfl | beside
      · by_cases before : addr < new.range.start
        · exact ⟨front, (members _).mpr (.inr (.inr (.inl rfl))),
            ⟨contains.1, before⟩, frontPiece⟩
        · have behind : new.range.end_ ≤ addr := by
            apply UInt64.not_lt.mp
            exact fun below => outside ⟨UInt64.not_lt.mp before, below⟩
          exact ⟨back, (members _).mpr (.inl rfl), ⟨behind, contains.2⟩,
            backPiece⟩
      · exact ⟨whole, (members _).mpr (.inr (.inr (.inr beside))), contains,
          .refl new whole⟩

/-- Step 4.1 leaves an empty range of the mapping the new one starts in. -/
theorem truncateEnd_spec (new : Mapping) {map : MemoryMap τ}
    (sorted : Sorted map) :
    ∃ result, truncateEnd new map = .ok result ∧ Sorted result ∧
      (∀ x ∈ result, x ∈ map ∧ ¬ x.1.Contains new.range.start ∨
        x.1.range.end_ ≤ x.1.range.start ∧
          x.1.range.end_ ≤ new.range.start ∧ ∃ whole ∈ map, Piece new whole x) ∧
      ∀ x ∈ map, ¬ x.1.Contains new.range.start → x ∈ result := by
  cases found : find new.range.start map with
  | none =>
      refine ⟨map, by simp [truncateEnd, found], sorted, ?_, fun x member _ => member⟩
      exact fun x member => .inl ⟨member, find_none sorted found member⟩
  | some place =>
      obtain ⟨rfl, inside⟩ := find_some found
      have within := And.intro (UInt64.le_refl place.entry.1.range.start)
        place.entry.1.range.ordered
      let rest : Mapping × τ := (⟨⟨place.entry.1.range.start,
        place.entry.1.range.start, UInt64.le_refl _⟩, place.entry.1.pgoff⟩,
        place.entry.2)
      obtain ⟨result, emplaced, resultSorted, members⟩ :=
        emplaceKey_within sorted (show _ ≤ rest.1.range.start ∧
          rest.1.range.end_ ≤ _ from within) rest.2
      refine ⟨result, by simpa [truncateEnd, found] using emplaced,
        resultSorted, ?_, ?_⟩
      · intro x member
        rcases (members x).mp member with rfl | beside
        · exact .inr ⟨UInt64.le_refl _, inside.1, place.entry,
            place.entry_mem_list, rfl, rfl, within, .inl rfl⟩
        · exact .inl ⟨Place.mem_list.mpr (.inr beside),
            not_contains_of_erase sorted inside beside⟩
      · intro x member outside
        rcases Place.mem_list.mp member with rfl | beside
        · exact absurd inside outside
        · exact (members x).mpr (.inr beside)

theorem truncateStart_spec (new : Mapping) {map : MemoryMap τ}
    (sorted : Sorted map) :
    ∃ result, truncateStart new map = .ok result ∧ Sorted result ∧
      (∀ x ∈ result, x ∈ map ∧ ¬ x.1.Contains new.range.end_ ∨
        x.1.range.start = new.range.end_ ∧ ∃ whole ∈ map, Piece new whole x) ∧
      ∀ whole ∈ map, ∃ x ∈ result, Piece new whole x ∧
        ∀ addr, whole.1.Contains addr →
          (whole.1.Contains new.range.end_ → new.range.end_ ≤ addr) →
            x.1.Contains addr := by
  cases found : find new.range.end_ map with
  | none =>
      refine ⟨map, by simp [truncateStart, found], sorted, ?_, ?_⟩
      · exact fun x member => .inl ⟨member, find_none sorted found member⟩
      · exact fun whole member =>
          ⟨whole, member, .refl new whole, fun _ contains _ => contains⟩
  | some place =>
      obtain ⟨rfl, inside⟩ := find_some found
      have upper := UInt64.le_of_lt inside.2
      have within := And.intro inside.1
        (UInt64.le_refl place.entry.1.range.end_)
      let rest : Mapping × τ := (⟨⟨new.range.end_, place.entry.1.range.end_,
        upper⟩, place.entry.1.pgoff⟩, place.entry.2)
      have piece : Piece new place.entry rest := by
        refine ⟨rfl, rfl, within, ?_⟩
        by_cases atStart : new.range.end_ = place.entry.1.range.start
        · exact .inl atStart
        · exact .inr ⟨UInt64.lt_of_le_of_ne inside.1 (Ne.symm atStart), rfl⟩
      obtain ⟨result, emplaced, resultSorted, members⟩ :=
        emplaceKey_within sorted (show _ ≤ rest.1.range.start ∧
          rest.1.range.end_ ≤ _ from within) rest.2
      refine ⟨result, ?_, resultSorted, ?_, ?_⟩
      · simp only [truncateStart, found, Range.ofBounds_eq_ok upper, bind,
          Except.bind]
        exact emplaced
      · intro x member
        rcases (members x).mp member with rfl | beside
        · exact .inr ⟨rfl, place.entry, place.entry_mem_list, piece⟩
        · exact .inl ⟨Place.mem_list.mpr (.inr beside),
            not_contains_of_erase sorted inside beside⟩
      · intro whole member
        rcases Place.mem_list.mp member with rfl | beside
        · exact ⟨rest, (members _).mpr (.inl rfl), piece,
            fun addr contains behind => ⟨behind inside, contains.2⟩⟩
        · exact ⟨whole, (members _).mpr (.inr beside), .refl new whole,
            fun _ contains _ => contains⟩

section

variable {new : Mapping} {map : MemoryMap τ}

theorem mem_eraseInside {x : Mapping × τ} :
    x ∈ eraseInside new map ↔ x ∈ map ∧
      ¬ (new.range.start ≤ x.1.range.start ∧ x.1.range.end_ ≤ new.range.end_) := by
  rw [← Mapping.isIn_iff, eraseInside, List.mem_filter, Bool.not_eq_true,
    Bool.not_eq_true']

theorem mem_eraseInside_of_contains {whole : Mapping × τ} (member : whole ∈ map)
    {addr : Address} (contains : whole.1.Contains addr)
    (outside : ¬ new.Contains addr) : whole ∈ eraseInside new map := by
  refine mem_eraseInside.mpr ⟨member, ?_⟩
  rintro ⟨lower, upper⟩
  apply outside
  exact ⟨UInt64.le_trans lower contains.1,
    UInt64.lt_of_lt_of_le contains.2 upper⟩

theorem Emplaced.of_eraseInside {toEmplace : τ} {result : MemoryMap τ}
    (effect : Emplaced new toEmplace (eraseInside new map) result) :
    Emplaced new toEmplace map result where
  sorted := effect.sorted
  stored := effect.stored
  sound x member := by
    rcases effect.sound x member with new' | ⟨whole, old, piece⟩
    · exact .inl new'
    · exact .inr ⟨whole, (mem_eraseInside.mp old).1, piece⟩
  complete whole member addr contains outside untouched :=
    effect.complete whole (mem_eraseInside_of_contains member contains outside)
      addr contains outside untouched

/-- Steps 4 and 5, where no entry is covered and none lies around the new
mapping. -/
theorem truncate_spec (sorted : Sorted map)
    (notInside : ∀ x ∈ map, ¬ (new.range.start ≤ x.1.range.start ∧
      x.1.range.end_ ≤ new.range.end_))
    (notAround : ∀ x ∈ map, ¬ (x.1.range.start ≤ new.range.start ∧
      new.range.end_ ≤ x.1.range.end_)) (toEmplace : τ) :
    ∃ second third, truncateEnd new map = .ok second ∧
      truncateStart new second = .ok third ∧
      Emplaced new toEmplace map
        (OrderedMap.emplace Mapping.lt new toEmplace third).1 := by
  obtain ⟨second, truncatedEnd, secondSorted, secondSound, secondComplete⟩ :=
    truncateEnd_spec new sorted
  obtain ⟨third, truncatedStart, thirdSorted, thirdSound, thirdComplete⟩ :=
    truncateStart_spec new secondSorted
  have apart : ∀ x ∈ third, x.1.range.end_ ≤ new.range.start ∨
      new.range.end_ ≤ x.1.range.start := by
    intro x member
    rcases thirdSound x member with ⟨inSecond, notEnd⟩ | ⟨atEnd, _⟩
    · rcases secondSound x inSecond with ⟨inFirst, notStart⟩ | ⟨_, front, _⟩
      · have notCovered := notInside x inFirst
        unfold Mapping.Contains at notStart notEnd
        grind
      · exact .inl front
    · exact .inr (atEnd ▸ UInt64.le_refl _)
  obtain ⟨result, emplaced, resultSorted, members⟩ :=
    OrderedMap.emplace_spec Mapping.lt_trans thirdSorted
      (fun x member => by simpa using apart x member) toEmplace
  refine ⟨second, third, truncatedEnd, truncatedStart, ?_⟩
  rw [emplaced]
  refine ⟨resultSorted, (members _).mpr (.inl rfl), ?_, ?_⟩
  · intro x member
    rcases (members x).mp member with rfl | inThird
    · exact .inl rfl
    · right
      obtain ⟨middle, inSecond, piece⟩ :
          ∃ middle ∈ second, Piece new middle x := by
        rcases thirdSound x inThird with ⟨inSecond, _⟩ | ⟨_, middle⟩
        · exact ⟨x, inSecond, .refl new x⟩
        · exact middle
      rcases secondSound middle inSecond with ⟨inFirst, notStart⟩ |
        ⟨empty, _, whole, inFirst, whole'⟩
      · refine ⟨middle, inFirst, piece, ?_⟩
        intro _ _ holds
        obtain ⟨lower, upper, _⟩ := holds
        exact notStart ⟨UInt64.le_of_lt lower, upper⟩
      · refine ⟨whole, inFirst, whole'.trans piece, ?_⟩
        intro addr contains
        obtain ⟨lower, upper⟩ := piece.contains contains
        exact absurd (UInt64.lt_of_le_of_lt lower upper)
          (UInt64.not_lt.mpr empty)
  · intro whole inFirst addr contains outside untouched
    have notCovered := notInside whole inFirst
    have notWider := notAround whole inFirst
    have notStart : ¬ whole.1.Contains new.range.start := by
      unfold Mapping.Contains
      unfold Truncates at untouched
      grind
    have inSecond := secondComplete whole inFirst notStart
    obtain ⟨x, inThird, piece, covers⟩ := thirdComplete whole inSecond
    refine ⟨x, (members x).mpr (.inr inThird), covers addr contains ?_, piece⟩
    unfold Mapping.Contains at contains outside ⊢
    grind

end

theorem emplace_spec (new : Mapping) {map : MemoryMap τ} (sorted : Sorted map)
    (toEmplace : τ) :
    ∃ result, emplace new toEmplace map = .ok result ∧
      Emplaced new toEmplace map result := by
  have keptSorted : Sorted (eraseInside new map) :=
    List.Pairwise.sublist List.filter_sublist sorted
  cases around : findIf (fun elem : Mapping × τ => new.isIn elem.1)
      (eraseInside new map) with
  | some place =>
      obtain ⟨list, inside, _⟩ := findIf_some around
      rw [Mapping.isIn_iff] at inside
      rw [list] at keptSorted
      obtain ⟨result, split, effect⟩ :=
        splitAround_spec keptSorted inside toEmplace
      rw [← list] at effect
      refine ⟨result, ?_, effect.of_eraseInside⟩
      simpa [emplace, around] using split
  | none =>
      have notAround : ∀ x ∈ eraseInside new map,
          ¬ (x.1.range.start ≤ new.range.start ∧
            new.range.end_ ≤ x.1.range.end_) := by
        intro x member
        have outside := findIf_eq_none.mp around x member
        rw [← Mapping.isIn_iff, Bool.not_eq_true]
        exact outside
      obtain ⟨second, third, truncatedEnd, truncatedStart, effect⟩ :=
        truncate_spec keptSorted (fun x member => (mem_eraseInside.mp member).2)
          notAround toEmplace
      refine ⟨_, ?_, effect.of_eraseInside⟩
      simp only [emplace, around, truncatedEnd, truncatedStart, bind,
        Except.bind]

namespace Emplaced

variable {new : Mapping} {toEmplace : τ} {map result : MemoryMap τ}

theorem entryAt_new (effect : Emplaced new toEmplace map result)
    {addr : Address} (inside : new.Contains addr) :
    entryAt addr result = some (new, toEmplace) :=
  (entryAt_eq_some_iff effect.sorted).mpr ⟨effect.stored, inside⟩

/-- Beside the new mapping, what is found is a piece of what was found. -/
theorem entryAt_piece (effect : Emplaced new toEmplace map result)
    (sorted : Sorted map) {addr : Address} (outside : ¬ new.Contains addr)
    {x : Mapping × τ} (found : entryAt addr result = some x) :
    ∃ whole, entryAt addr map = some whole ∧ Piece new whole x ∧
      ¬ Truncates new whole.1 := by
  obtain ⟨member, contains⟩ := (entryAt_eq_some_iff effect.sorted).mp found
  rcases effect.sound x member with rfl | ⟨whole, old, piece, untouched⟩
  · exact absurd contains outside
  · exact ⟨whole, (entryAt_eq_some_iff sorted).mpr ⟨old, piece.contains contains⟩,
      piece, untouched addr contains⟩

/-- Beside the new mapping, a piece of what was found is found, unless it was
truncated. -/
theorem entryAt_whole (effect : Emplaced new toEmplace map result)
    (sorted : Sorted map) {addr : Address} (outside : ¬ new.Contains addr)
    {whole : Mapping × τ} (found : entryAt addr map = some whole)
    (untouched : ¬ Truncates new whole.1) :
    ∃ x, entryAt addr result = some x ∧ Piece new whole x := by
  obtain ⟨member, contains⟩ := (entryAt_eq_some_iff sorted).mp found
  obtain ⟨x, stored, inside, piece⟩ :=
    effect.complete whole member addr contains outside untouched
  exact ⟨x, (entryAt_eq_some_iff effect.sorted).mpr ⟨stored, inside⟩, piece⟩

end Emplaced

end MemoryMap

/-- A call of `emplace` with a non-empty range. -/
structure EmplaceCall (τ : Type) where
  mapping : Mapping
  nonempty : mapping.range.start < mapping.range.end_
  resolver : τ

namespace EmplaceCall

variable {τ : Type}

def perform (map : MemoryMap τ) (call : EmplaceCall τ) :
    Except Failure (MemoryMap τ) :=
  map.emplace call.mapping call.resolver

/-- The last of some calls whose range contains an address. -/
def lastContaining (calls : List (EmplaceCall τ)) (addr : Address) :
    Option (EmplaceCall τ) :=
  calls.reverse.find? fun call => call.mapping.Contains addr

theorem lastContaining_concat (calls : List (EmplaceCall τ))
    (call : EmplaceCall τ) (addr : Address) :
    lastContaining (calls ++ [call]) addr =
      if call.mapping.Contains addr then some call
      else lastContaining calls addr := by
  by_cases inside : call.mapping.Contains addr <;>
    simp [lastContaining, inside]

theorem perform_spec {map : MemoryMap τ} (sorted : map.Sorted)
    (call : EmplaceCall τ) :
    ∃ result, perform map call = .ok result ∧
      MemoryMap.Emplaced call.mapping call.resolver map result :=
  MemoryMap.emplace_spec call.mapping sorted call.resolver

/-- No sequence of calls fails an assertion, and the stored ranges stay in
order. -/
theorem run_sorted (calls : List (EmplaceCall τ)) :
    ∃ map, run perform [] calls = .ok map ∧ map.Sorted := by
  refine run_total ?_ List.Pairwise.nil calls
  intro map call sorted
  obtain ⟨result, performed, effect⟩ := perform_spec sorted call
  exact ⟨result, performed, effect.sorted⟩

end EmplaceCall

end Lo2s
