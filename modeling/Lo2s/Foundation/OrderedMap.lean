import Mathlib.Data.List.Pairwise
import Mathlib.Tactic.Common

/-!
# Ordered maps over an interval comparator

An ordered map is kept as the list of its entries in order.  Its comparator
only has to be transitive: for intervals, where one precedes another when it
ends before the other starts, an empty interval precedes itself, so the usual
laws of a strict ordering are not available.

A position in a map is the entry there with the entries before and after it.
-/

namespace Foundation

/-- A position: the entries before it, the entry, the entries after it. -/
structure Place (α : Type u) where
  before : List α
  entry : α
  after : List α

namespace Place

/-- The list without the entry. -/
def erase (place : Place α) : List α := place.before ++ place.after

/-- The list the position is in. -/
def list (place : Place α) : List α :=
  place.before ++ place.entry :: place.after

theorem mem_list {place : Place α} {x : α} :
    x ∈ place.list ↔ x = place.entry ∨ x ∈ place.erase := by
  simp only [list, erase, List.mem_append, List.mem_cons]
  tauto

theorem entry_mem_list (place : Place α) : place.entry ∈ place.list :=
  mem_list.mpr (.inl rfl)

end Place

/-- The position of the first entry with a property. -/
def findIf (property : α → Bool) : List α → Option (Place α)
  | [] => none
  | x :: xs =>
      if property x then some ⟨[], x, xs⟩
      else (findIf property xs).map fun place =>
        { place with before := x :: place.before }

theorem findIf_some {property : α → Bool} {xs : List α} {place : Place α}
    (found : findIf property xs = some place) :
    xs = place.list ∧ property place.entry = true ∧
      ∀ x ∈ place.before, property x = false := by
  induction xs generalizing place with
  | nil => cases found
  | cons x xs induction =>
      by_cases here : property x = true
      · simp only [findIf, if_pos here, Option.some.injEq] at found
        subst found
        exact ⟨rfl, here, by simp⟩
      · simp only [findIf, if_neg here, Option.map_eq_some_iff] at found
        obtain ⟨later, foundLater, rfl⟩ := found
        obtain ⟨split, holds, earlier⟩ := induction foundLater
        refine ⟨congrArg (x :: ·) split, holds, ?_⟩
        intro y member
        rcases List.mem_cons.mp member with same | inside
        · rw [same]
          exact Bool.not_eq_true _ ▸ here
        · exact earlier y inside

theorem findIf_eq_none {property : α → Bool} {xs : List α} :
    findIf property xs = none ↔ ∀ x ∈ xs, property x = false := by
  induction xs with
  | nil => simp [findIf]
  | cons x xs induction =>
      by_cases here : property x = true
      · simp [findIf, here]
      · simp [findIf, here, induction]

namespace OrderedMap

variable {κ : Type u} {τ : Type v} (less : κ → κ → Bool)

/-- Every entry precedes the entries after it. -/
def Sorted (entries : List (κ × τ)) : Prop :=
  entries.Pairwise fun left right => less left.1 right.1 = true

/-- `find`: the first entry that does not precede the query, if the query does
not precede it. -/
def find? (query : κ) (entries : List (κ × τ)) : Option (Place (κ × τ)) :=
  match findIf (fun entry => !less entry.1 query) entries with
  | none => none
  | some place => if less query place.entry.1 then none else some place

/-- The entries a key does not precede, and those from the first it precedes. -/
def splitAt (key : κ) (entries : List (κ × τ)) :
    List (κ × τ) × List (κ × τ) :=
  match findIf (fun entry => less key entry.1) entries with
  | none => (entries, [])
  | some place => (place.before, place.entry :: place.after)

/-- `emplace`: in front of the first entry the key precedes, provided that the
entry before that one precedes the key; and whether it was inserted. -/
def emplace (key : κ) (value : τ) (entries : List (κ × τ)) :
    List (κ × τ) × Bool :=
  let parts := splitAt less key entries
  match parts.1.getLast? with
  | none => (parts.1 ++ (key, value) :: parts.2, true)
  | some last =>
      if less last.1 key then (parts.1 ++ (key, value) :: parts.2, true)
      else (entries, false)

/-- `emplace` of one entry after the other. -/
def emplaceAll : List (κ × τ) → List (κ × τ) → List (κ × τ)
  | [], entries => entries
  | new :: rest, entries =>
      emplaceAll rest (emplace less new.1 new.2 entries).1

/-- What the iterator that `emplace` returns leads to: the new value, or that
of the entry that is in the way. -/
def emplaced (key : κ) (value : τ) (entries : List (κ × τ)) : τ :=
  match (splitAt less key entries).1.getLast? with
  | none => value
  | some last => if less last.1 key then value else last.2

/-- Neither of two keys precedes the other. -/
def Overlap (left right : κ) : Prop :=
  less left right = false ∧ less right left = false

instance (left right : κ) : Decidable (Overlap less left right) :=
  inferInstanceAs (Decidable (_ ∧ _))

variable {less}

theorem Sorted.erase {place : Place (κ × τ)} (sorted : Sorted less place.list) :
    Sorted less place.erase := by
  refine List.Pairwise.sublist ?_ sorted
  exact List.Sublist.append_left (List.sublist_cons_self _ _) _

theorem Sorted.apart {place : Place (κ × τ)} (sorted : Sorted less place.list)
    {x : κ × τ} (member : x ∈ place.erase) :
    less x.1 place.entry.1 = true ∨ less place.entry.1 x.1 = true := by
  obtain ⟨_, later, cross⟩ := List.pairwise_append.mp sorted
  rcases List.mem_append.mp member with inBefore | inAfter
  · exact .inl (cross x inBefore place.entry List.mem_cons_self)
  · exact .inr (List.rel_of_pairwise_cons later inAfter)

theorem find?_some {query : κ} {entries : List (κ × τ)}
    {place : Place (κ × τ)} (found : find? less query entries = some place) :
    entries = place.list ∧ Overlap less query place.entry.1 := by
  unfold find? at found
  split at found
  · cases found
  · rename_i first foundFirst
    split at found
    · cases found
    · rename_i notBelow
      cases found
      obtain ⟨list, notAbove, _⟩ := findIf_some foundFirst
      exact ⟨list, Bool.eq_false_iff.mpr notBelow, by simpa using notAbove⟩

variable (less) in
/-- A key that lies inside of what it overlaps. -/
def IsPoint (query : κ) : Prop :=
  ∀ left right, Overlap less query left → Overlap less query right →
    Overlap less left right

theorem IsPoint.eq_of_overlap {query : κ} (point : IsPoint less query)
    {entries : List (κ × τ)} (sorted : Sorted less entries) {x y : κ × τ}
    (left : x ∈ entries) (leftOverlap : Overlap less query x.1)
    (right : y ∈ entries) (rightOverlap : Overlap less query y.1) : x = y := by
  by_contra different
  have apart : entries.Pairwise fun left right =>
      less left.1 right.1 = true ∨ less right.1 left.1 = true :=
    sorted.imp .inl
  have symmetric : Std.Symm fun left right : κ × τ =>
      less left.1 right.1 = true ∨ less right.1 left.1 = true :=
    ⟨fun _ _ => Or.symm⟩
  have overlap := point x.1 y.1 leftOverlap rightOverlap
  rcases apart.forall left right different with before | after
  · exact absurd (before.symm.trans overlap.1) (by decide)
  · exact absurd (after.symm.trans overlap.2) (by decide)

theorem find?_mem {query : κ} {entries : List (κ × τ)}
    {place : Place (κ × τ)} (found : find? less query entries = some place) :
    place.entry ∈ entries := by
  rw [(find?_some found).1]
  exact place.entry_mem_list

theorem emplaced_singleton {key : κ} {entry : κ × τ}
    (overlap : Overlap less key entry.1) (value : τ) :
    emplaced less key value [entry] = entry.2 := by
  have whole : splitAt less key [entry] = ([entry], []) := by
    simp [splitAt, findIf, overlap.1]
  simp [emplaced, whole, overlap.2]

section

variable (trans : ∀ first second third, less first second = true →
  less second third = true → less first third = true)
include trans

/-- Where no entry is found, each entry precedes the query or follows it. -/
theorem find?_eq_none {query : κ} {entries : List (κ × τ)}
    (sorted : Sorted less entries) (absent : find? less query entries = none)
    {x : κ × τ} (member : x ∈ entries) :
    less x.1 query = true ∨ less query x.1 = true := by
  unfold find? at absent
  split at absent
  · rename_i nothing
    exact .inl (by simpa using findIf_eq_none.mp nothing x member)
  · rename_i place found
    split at absent
    · obtain ⟨rfl, _, earlier⟩ := findIf_some found
      obtain ⟨_, later, _⟩ := List.pairwise_append.mp sorted
      rcases List.mem_append.mp member with inBefore | inAfter
      · exact .inl (by simpa using earlier x inBefore)
      · rcases List.mem_cons.mp inAfter with same | behind
        · exact .inr (same ▸ ‹_›)
        · exact .inr (trans _ _ _ ‹_› (List.rel_of_pairwise_cons later behind))
    · cases absent

theorem IsPoint.find? {query : κ} (point : IsPoint less query)
    {entries : List (κ × τ)} (sorted : Sorted less entries) {x : κ × τ}
    (member : x ∈ entries) (overlap : Overlap less query x.1) :
    (find? less query entries).map Place.entry = some x := by
  cases found : OrderedMap.find? less query entries with
  | none =>
      rcases find?_eq_none trans sorted found member with before | after
      · exact absurd (before.symm.trans overlap.2) (by decide)
      · exact absurd (after.symm.trans overlap.1) (by decide)
  | some place =>
      obtain ⟨_, entryOverlap⟩ := find?_some found
      exact congrArg some (point.eq_of_overlap sorted (find?_mem found)
        entryOverlap member overlap)

theorem splitAt_eq {entries : List (κ × τ)} (sorted : Sorted less entries)
    (key : κ) :
    entries = (splitAt less key entries).1 ++ (splitAt less key entries).2 ∧
      (∀ x ∈ (splitAt less key entries).1, less key x.1 = false) ∧
      ∀ x ∈ (splitAt less key entries).2, less key x.1 = true := by
  unfold splitAt
  split
  · rename_i nothing
    exact ⟨by simp, findIf_eq_none.mp nothing, by simp⟩
  · rename_i place found
    obtain ⟨rfl, preceded, earlier⟩ := findIf_some found
    obtain ⟨_, later, _⟩ := List.pairwise_append.mp sorted
    refine ⟨rfl, earlier, fun x member => ?_⟩
    rcases List.mem_cons.mp member with same | behind
    · exact same ▸ preceded
    · exact trans _ _ _ preceded (List.rel_of_pairwise_cons later behind)

/-- A key is inserted in its place, or an entry that overlaps it is in the
way. -/
theorem emplace_cases {entries : List (κ × τ)} (sorted : Sorted less entries)
    (key : κ) (value : τ) :
    (∃ result, emplace less key value entries = (result, true) ∧
      emplaced less key value entries = value ∧ Sorted less result ∧
        ∀ x, x ∈ result ↔ x = (key, value) ∨ x ∈ entries) ∨
    ∃ last ∈ entries, emplace less key value entries = (entries, false) ∧
      emplaced less key value entries = last.2 ∧ Overlap less key last.1 := by
  obtain ⟨split, notPreceded, preceded⟩ := splitAt_eq trans sorted key
  generalize parts : splitAt less key entries = halves at split notPreceded preceded
  obtain ⟨beforeSorted, afterSorted, cross⟩ :=
    List.pairwise_append.mp (split ▸ sorted)
  have inserted : (∀ x ∈ halves.1, less x.1 key = true) →
      Sorted less (halves.1 ++ (key, value) :: halves.2) ∧
        ∀ x, x ∈ halves.1 ++ (key, value) :: halves.2 ↔
          x = (key, value) ∨ x ∈ entries := by
    intro smaller
    refine ⟨List.pairwise_append.mpr ⟨beforeSorted, ?_, ?_⟩, fun x => ?_⟩
    · exact List.pairwise_cons.mpr ⟨preceded, afterSorted⟩
    · intro x inBefore y inRest
      rcases List.mem_cons.mp inRest with same | inAfter
      · rw [same]
        exact smaller x inBefore
      · exact cross x inBefore y inAfter
    · rw [split]
      simp only [List.mem_append, List.mem_cons]
      tauto
  cases last : halves.1.getLast? with
  | none =>
      have empty : halves.1 = [] := List.getLast?_eq_none_iff.mp last
      have spec := inserted (by rw [empty]; exact fun _ absent => nomatch absent)
      exact .inl ⟨_, by simp only [emplace, parts, last],
        by simp only [emplaced, parts, last], spec⟩
  | some entry =>
      have member := List.mem_of_getLast? last
      by_cases smaller : less entry.1 key = true
      · have all : ∀ x ∈ halves.1, less x.1 key = true := by
          intro x inBefore
          obtain ⟨front, ends⟩ := List.getLast?_eq_some_iff.mp last
          rw [ends] at inBefore beforeSorted
          rcases List.mem_append.mp inBefore with inFront | same
          · exact trans _ _ _ ((List.pairwise_append.mp beforeSorted).2.2 x
              inFront entry List.mem_cons_self) smaller
          · rw [List.mem_singleton.mp same]
            exact smaller
        exact .inl ⟨_, by simp only [emplace, parts, last, if_pos smaller],
          by simp only [emplaced, parts, last, if_pos smaller], inserted all⟩
      · refine .inr ⟨entry, ?_, by simp only [emplace, parts, last, if_neg smaller],
          by simp only [emplaced, parts, last, if_neg smaller],
          notPreceded entry member, Bool.eq_false_iff.mpr smaller⟩
        rw [split]
        exact List.mem_append_left _ member

theorem emplace_overlap {entries : List (κ × τ)} (sorted : Sorted less entries)
    {key : κ} {x : κ × τ} (member : x ∈ entries)
    (overlap : Overlap less key x.1) (value : τ) :
    emplace less key value entries = (entries, false) := by
  obtain ⟨split, _, preceded⟩ := splitAt_eq trans sorted key
  have inFront : x ∈ (splitAt less key entries).1 := by
    rw [split] at member
    rcases List.mem_append.mp member with front | behind
    · exact front
    · exact absurd (overlap.1.symm.trans (preceded x behind)) (by decide)
  cases ends : (splitAt less key entries).1.getLast? with
  | none =>
      rw [List.getLast?_eq_none_iff.mp ends] at inFront
      cases inFront
  | some last =>
      have notBelow : less last.1 key ≠ true := by
        intro below
        obtain ⟨front, list⟩ := List.getLast?_eq_some_iff.mp ends
        rw [split, list] at sorted
        rw [list] at inFront
        have precedes : less x.1 key = true := by
          rcases List.mem_append.mp inFront with earlier | same
          · have order := (List.pairwise_append.mp
              (List.pairwise_append.mp sorted).1).2.2
            exact trans _ _ _ (order x earlier last List.mem_cons_self) below
          · rwa [List.mem_singleton.mp same]
        exact absurd (overlap.2.symm.trans precedes) (by decide)
      simp only [emplace, ends, if_neg notBelow]

/-- A key that is apart from every entry is inserted in its place. -/
theorem emplace_spec {entries : List (κ × τ)} (sorted : Sorted less entries)
    {key : κ} (apart : ∀ x ∈ entries,
      less x.1 key = true ∨ less key x.1 = true) (value : τ) :
    ∃ result, emplace less key value entries = (result, true) ∧
      Sorted less result ∧ ∀ x, x ∈ result ↔ x = (key, value) ∨ x ∈ entries := by
  rcases emplace_cases trans sorted key value with
    ⟨result, inserted, _, spec⟩ | ⟨last, member, _, _, overlap⟩
  · exact ⟨result, inserted, spec⟩
  · rcases apart last member with before | after
    · exact absurd (before.symm.trans overlap.2) (by decide)
    · exact absurd (after.symm.trans overlap.1) (by decide)

theorem emplace_inserted_iff {entries : List (κ × τ)}
    (sorted : Sorted less entries) (key : κ) (value : τ) :
    (emplace less key value entries).2 = true ↔
      ∀ x ∈ entries, ¬ Overlap less key x.1 := by
  constructor
  · intro inserted x member overlap
    rw [emplace_overlap trans sorted member overlap] at inserted
    cases inserted
  · intro free
    have apart : ∀ x ∈ entries,
        less x.1 key = true ∨ less key x.1 = true := by
      intro x member
      by_contra neither
      rw [not_or, Bool.not_eq_true, Bool.not_eq_true] at neither
      exact free x member neither.symm
    obtain ⟨result, inserted, _⟩ := emplace_spec trans sorted apart value
    rw [inserted]

/-- Keys that do not overlap are all inserted, in whatever order they come. -/
theorem emplaceAll_spec {entries new : List (κ × τ)}
    (sorted : Sorted less entries)
    (apart : new.Pairwise fun left right =>
      less left.1 right.1 = true ∨ less right.1 left.1 = true)
    (free : ∀ x ∈ entries, ∀ y ∈ new,
      less x.1 y.1 = true ∨ less y.1 x.1 = true) :
    Sorted less (emplaceAll less new entries) ∧
      ∀ x, x ∈ emplaceAll less new entries ↔ x ∈ new ∨ x ∈ entries := by
  induction new generalizing entries with
  | nil => exact ⟨sorted, by simp [emplaceAll]⟩
  | cons first new induction =>
      obtain ⟨firstApart, apart⟩ := List.pairwise_cons.mp apart
      obtain ⟨result, inserted, resultSorted, contents⟩ :=
        emplace_spec trans sorted
          (fun x member => free x member first List.mem_cons_self) first.2
      rw [emplaceAll, inserted]
      have resultFree : ∀ x ∈ result, ∀ y ∈ new,
          less x.1 y.1 = true ∨ less y.1 x.1 = true := by
        intro x member y isNew
        rcases (contents x).mp member with same | old
        · rw [same]
          exact firstApart y isNew
        · exact free x old y (List.mem_cons_of_mem first isNew)
      obtain ⟨allSorted, allContents⟩ := induction resultSorted apart resultFree
      refine ⟨allSorted, fun x => ?_⟩
      rw [allContents, contents, List.mem_cons]
      tauto

end

end OrderedMap

end Foundation
