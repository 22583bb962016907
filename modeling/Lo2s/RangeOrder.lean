import Lo2s.MemoryMap
import Mathlib.Data.Finset.Insert
import Mathlib.Order.Defs.Unbundled

/-!
# Ranges as keys of maps

The maps of mappings, of kernel symbols, of symbols of a JIT and of debug
information are keyed by ranges that compare by position.  This is no ordering
of all ranges: those that share addresses are neither smaller nor greater than
each other, and an empty range is smaller than itself.  It is one on any set of
disjoint ranges, as long as none of them is empty.
-/

namespace Lo2s

open Foundation

namespace Range

def NonEmpty (r : Range) : Prop := r.start < r.end_

/-- The ranges share no address. -/
def DisjointFrom (left right : Range) : Prop :=
  ∀ addr, ¬ (left.Contains addr ∧ right.Contains addr)

instance (r : Range) : Decidable r.NonEmpty :=
  inferInstanceAs (Decidable (_ < _))

theorem DisjointFrom.symm {left right : Range}
    (disjoint : left.DisjointFrom right) : right.DisjointFrom left :=
  fun addr both => disjoint addr both.symm

theorem disjointFrom_of_lt {left right : Range}
    (before : left.lt right = true) : left.DisjointFrom right := by
  rintro addr ⟨⟨_, below⟩, above, _⟩
  rw [lt_iff] at before
  exact absurd below (UInt64.not_lt.mpr (UInt64.le_trans before above))

/-- Of two ranges that are not empty, the greater start is in both if neither
range precedes the other. -/
theorem not_overlap_iff_disjointFrom {left right : Range}
    (leftNonEmpty : left.NonEmpty) (rightNonEmpty : right.NonEmpty) :
    ¬ OrderedMap.Overlap lt left right ↔ left.DisjointFrom right := by
  constructor
  · rintro apart addr ⟨inLeft, inRight⟩
    exact apart (overlap_of_contains inLeft inRight)
  · rintro disjoint ⟨notBefore, notAfter⟩
    rw [← Bool.not_eq_true, lt_iff, UInt64.not_le] at notBefore notAfter
    rcases UInt64.le_total left.start right.start with rightLater | leftLater
    · exact disjoint right.start
        ⟨⟨rightLater, notBefore⟩, UInt64.le_refl _, rightNonEmpty⟩
    · exact disjoint left.start
        ⟨⟨UInt64.le_refl _, leftNonEmpty⟩, leftLater, notAfter⟩

theorem lt_or_lt_of_disjointFrom {left right : Range}
    (leftNonEmpty : left.NonEmpty) (rightNonEmpty : right.NonEmpty)
    (disjoint : left.DisjointFrom right) :
    left.lt right = true ∨ right.lt left = true := by
  have apart := (not_overlap_iff_disjointFrom leftNonEmpty rightNonEmpty).mpr
    disjoint
  rw [OrderedMap.Overlap, not_and_or, Bool.not_eq_false, Bool.not_eq_false]
    at apart
  exact apart

/-- An empty range is in the way of the ranges it is strictly inside of. -/
theorem overlap_empty_iff {empty r : Range} (isEmpty : ¬ empty.NonEmpty) :
    OrderedMap.Overlap lt empty r ↔
      r.start < empty.start ∧ empty.start < r.end_ := by
  have same : empty.end_ = empty.start :=
    UInt64.le_antisymm (UInt64.not_lt.mp isEmpty) empty.ordered
  rw [OrderedMap.Overlap, ← Bool.not_eq_true, ← Bool.not_eq_true, lt_iff,
    lt_iff, UInt64.not_le, UInt64.not_le, same]

theorem not_lt_self {r : Range} (nonEmpty : r.NonEmpty) :
    ¬ r.lt r = true := by
  rw [lt_iff, UInt64.not_le]
  exact nonEmpty

theorem not_contains_max (r : Range) : ¬ r.Contains .max := fun inside =>
  absurd inside.2 (UInt64.not_lt.mpr (Address.le_max r.end_))

end Range

/-- A type of keys that compare by a range, with the key that an address is
looked up by. -/
structure RangeKey (κ : Type) where
  range : κ → Range
  less : κ → κ → Bool
  ofAddress : Address → κ
  less_eq : ∀ left right, less left right = (range left).lt (range right)
  range_ofAddress : ∀ addr, range (ofAddress addr) = .ofPoint addr

/-- The keys of kernel symbols, of symbols of a JIT and of debug information. -/
def Range.asKey : RangeKey Range where
  range r := r
  less := Range.lt
  ofAddress := Range.ofPoint
  less_eq _ _ := rfl
  range_ofAddress _ := rfl

/-- The keys of a `MemoryMap`. -/
def Mapping.asKey : RangeKey Mapping where
  range := Mapping.range
  less := Mapping.lt
  ofAddress := Mapping.ofAddress
  less_eq _ _ := rfl
  range_ofAddress _ := rfl

namespace RangeKey

variable {κ τ : Type} (key : RangeKey κ)

/-- A map whose keys have exactly these ranges. -/
structure Keyed (stored : Finset Range) (entries : List (κ × τ)) : Prop where
  sorted : OrderedMap.Sorted key.less entries
  keys : ∀ r, r ∈ stored ↔ ∃ entry ∈ entries, key.range entry.1 = r

/-- How a set of ranges behaves as the keys of maps. -/
structure PointLookup (τ : Type) (stored : Finset Range) : Prop where
  totalOrder : IsStrictTotalOrder { r // r ∈ stored }
    fun left right => left.1.lt right.1 = true
  neither : ∀ addr, addr ≠ .max → ∀ r ∈ stored,
    (Range.ofPoint addr).lt r = false ∧ r.lt (.ofPoint addr) = false ↔
      r.Contains addr
  built : ∀ order : List (κ × τ),
    (order.map fun entry => key.range entry.1).Nodup →
      (∀ r, r ∈ stored ↔ ∃ entry ∈ order, key.range entry.1 = r) →
        key.Keyed stored (OrderedMap.emplaceAll key.less order []) ∧
          ∀ entry, entry ∈ OrderedMap.emplaceAll key.less order [] ↔
            entry ∈ order
  found : ∀ entries : List (κ × τ), key.Keyed stored entries →
    ∀ addr, addr ≠ .max → ∀ entry,
      (OrderedMap.find? key.less (key.ofAddress addr) entries).map
          Place.entry = some entry ↔
        entry ∈ entries ∧ (key.range entry.1).Contains addr
  highest : ∀ entries : List (κ × τ), key.Keyed stored entries →
    OrderedMap.find? key.less (key.ofAddress .max) entries = none
  insertedNonEmpty : ∀ entries : List (κ × τ), key.Keyed stored entries →
    ∀ new value, (key.range new).NonEmpty →
      ((OrderedMap.emplace key.less new value entries).2 = true ↔
        ∀ r ∈ stored, r.DisjointFrom (key.range new))
  insertedEmpty : ∀ entries : List (κ × τ), key.Keyed stored entries →
    ∀ new value, ¬ (key.range new).NonEmpty →
      ((OrderedMap.emplace key.less new value entries).2 = true ↔
        ∀ r ∈ stored, ¬ (r.start < (key.range new).start ∧
          (key.range new).start < r.end_))

section

variable {key}

theorem less_trans (first second third : κ)
    (left : key.less first second = true)
    (right : key.less second third = true) : key.less first third = true := by
  rw [key.less_eq] at left right ⊢
  exact Range.lt_trans _ _ _ left right

theorem overlap_iff {left right : κ} :
    OrderedMap.Overlap key.less left right ↔
      OrderedMap.Overlap Range.lt (key.range left) (key.range right) := by
  rw [OrderedMap.Overlap, OrderedMap.Overlap, key.less_eq, key.less_eq]

theorem overlap_ofAddress {addr : Address} {k : κ} :
    OrderedMap.Overlap key.less (key.ofAddress addr) k ↔
      (key.range k).Contains addr := by
  rw [overlap_iff, key.range_ofAddress, Range.overlap_ofPoint]

theorem isPoint_ofAddress (addr : Address) :
    OrderedMap.IsPoint key.less (key.ofAddress addr) := by
  intro left right inLeft inRight
  rw [overlap_ofAddress] at inLeft inRight
  rw [overlap_iff]
  exact Range.overlap_of_contains inLeft inRight

variable {stored : Finset Range} {entries : List (κ × τ)}

theorem find?_iff (sorted : OrderedMap.Sorted key.less entries)
    (addr : Address) (entry : κ × τ) :
    (OrderedMap.find? key.less (key.ofAddress addr) entries).map
        Place.entry = some entry ↔
      entry ∈ entries ∧ (key.range entry.1).Contains addr := by
  constructor
  · intro found
    obtain ⟨place, isPlace, rfl⟩ := Option.map_eq_some_iff.mp found
    have overlap := (OrderedMap.find?_some isPlace).2
    exact ⟨OrderedMap.find?_mem isPlace, overlap_ofAddress.mp overlap⟩
  · rintro ⟨member, inside⟩
    exact (isPoint_ofAddress addr).find? less_trans sorted member
      (overlap_ofAddress.mpr inside)

theorem Keyed.inserted_iff (keyed : key.Keyed stored entries) (new : κ)
    (value : τ) :
    (OrderedMap.emplace key.less new value entries).2 = true ↔
      ∀ r ∈ stored, ¬ OrderedMap.Overlap Range.lt (key.range new) r := by
  rw [OrderedMap.emplace_inserted_iff less_trans keyed.sorted]
  constructor
  · intro free r member
    obtain ⟨entry, isEntry, rfl⟩ := (keyed.keys r).mp member
    exact fun overlap => free entry isEntry (overlap_iff.mpr overlap)
  · intro free entry isEntry overlap
    exact free _ ((keyed.keys _).mpr ⟨entry, isEntry, rfl⟩)
      (overlap_iff.mp overlap)

end

section

variable {stored : Finset Range} (nonEmpty : ∀ r ∈ stored, r.NonEmpty)
  (disjoint : ∀ left ∈ stored, ∀ right ∈ stored, left ≠ right →
    left.DisjointFrom right)
include nonEmpty disjoint

theorem stored_apart {left right : Range} (isLeft : left ∈ stored)
    (isRight : right ∈ stored) (different : left ≠ right) :
    left.lt right = true ∨ right.lt left = true :=
  Range.lt_or_lt_of_disjointFrom (nonEmpty left isLeft) (nonEmpty right isRight)
    (disjoint left isLeft right isRight different)

theorem stored_totalOrder : IsStrictTotalOrder { r // r ∈ stored }
    fun left right => left.1.lt right.1 = true := by
  have irreflexive : Std.Irrefl fun left right : { r // r ∈ stored } =>
      left.1.lt right.1 = true :=
    ⟨fun r => Range.not_lt_self (nonEmpty r.1 r.2)⟩
  have transitive : IsTrans { r // r ∈ stored } fun left right =>
      left.1.lt right.1 = true :=
    ⟨fun _ _ _ left right => Range.lt_trans _ _ _ left right⟩
  have trichotomous : Std.Trichotomous
      fun left right : { r // r ∈ stored } => left.1.lt right.1 = true := by
    constructor
    intro left right notBefore notAfter
    by_contra different
    rcases stored_apart nonEmpty disjoint left.2 right.2
        (fun same => different (Subtype.ext same)) with before | after
    · exact notBefore before
    · exact notAfter after
  exact { }

theorem keyed_emplaceAll {order : List (κ × τ)}
    (nodup : (order.map fun entry => key.range entry.1).Nodup)
    (keys : ∀ r, r ∈ stored ↔ ∃ entry ∈ order, key.range entry.1 = r) :
    key.Keyed stored (OrderedMap.emplaceAll key.less order []) ∧
      ∀ entry, entry ∈ OrderedMap.emplaceAll key.less order [] ↔
        entry ∈ order := by
  have apart : order.Pairwise fun left right =>
      key.less left.1 right.1 = true ∨ key.less right.1 left.1 = true := by
    rw [List.Nodup, List.pairwise_map] at nodup
    apply nodup.imp_of_mem
    intro left right isLeft isRight different
    rw [key.less_eq, key.less_eq]
    exact stored_apart nonEmpty disjoint ((keys _).mpr ⟨left, isLeft, rfl⟩)
      ((keys _).mpr ⟨right, isRight, rfl⟩) different
  obtain ⟨sorted, contents⟩ := OrderedMap.emplaceAll_spec less_trans
    (List.Pairwise.nil : OrderedMap.Sorted key.less ([] : List (κ × τ))) apart
    (fun _ none => absurd none List.not_mem_nil)
  simp only [List.not_mem_nil, or_false] at contents
  refine ⟨⟨sorted, fun r => ?_⟩, contents⟩
  simp only [contents]
  exact keys r

end

/-- A finite set of ranges that are not empty and share no address is ordered,
and a map with these keys finds an address in the range that contains it.
Another range is inserted if it shares no address with those that are stored,
or if it is empty and strictly inside of none. -/
theorem pointLookup (stored : Finset Range)
    (nonEmpty : ∀ r ∈ stored, r.NonEmpty)
    (disjoint : ∀ left ∈ stored, ∀ right ∈ stored, left ≠ right →
      left.DisjointFrom right) :
    key.PointLookup τ stored := by
  constructor
  · exact stored_totalOrder nonEmpty disjoint
  · intro addr _ r _
    exact Range.overlap_ofPoint
  · intro order nodup keys
    exact keyed_emplaceAll key nonEmpty disjoint nodup keys
  · intro entries keyed addr _ entry
    exact find?_iff keyed.sorted addr entry
  · intro entries keyed
    cases found : OrderedMap.find? key.less (key.ofAddress .max) entries with
    | none => rfl
    | some place =>
        have overlap := (OrderedMap.find?_some found).2
        exact absurd (overlap_ofAddress.mp overlap) (Range.not_contains_max _)
  · intro entries keyed new value newNonEmpty
    rw [keyed.inserted_iff]
    apply forall₂_congr
    intro r member
    rw [Range.not_overlap_iff_disjointFrom newNonEmpty (nonEmpty r member)]
    exact ⟨Range.DisjointFrom.symm, Range.DisjointFrom.symm⟩
  · intro entries keyed new value isEmpty
    rw [keyed.inserted_iff]
    apply forall₂_congr
    intro r _
    rw [Range.overlap_empty_iff isEmpty]

theorem pointLookup_two : Range.asKey.PointLookup String
    {⟨0x1000, 0x1040, by decide⟩, ⟨0x1040, 0x1080, by decide⟩} := by
  apply pointLookup
  · intro r member
    rw [Finset.mem_insert, Finset.mem_singleton] at member
    rcases member with rfl | rfl
    · decide
    · decide
  · intro left isLeft right isRight different
    rw [Finset.mem_insert, Finset.mem_singleton] at isLeft isRight
    rcases isLeft with rfl | rfl
    · rcases isRight with rfl | rfl
      · exact absurd rfl different
      · exact Range.disjointFrom_of_lt (by decide)
    · rcases isRight with rfl | rfl
      · exact (Range.disjointFrom_of_lt (by decide)).symm
      · exact absurd rfl different

/-- An empty range shares no address with the range around it, but is not
inserted. -/
theorem empty_inside_not_inserted :
    ¬ ∀ stored : Finset Range, (∀ r ∈ stored, r.NonEmpty) →
      (∀ left ∈ stored, ∀ right ∈ stored, left ≠ right →
        left.DisjointFrom right) →
      ∀ entries : List (Range × String), Range.asKey.Keyed stored entries →
        ∀ new value,
          (OrderedMap.emplace Range.lt new value entries).2 = true ↔
            ∀ r ∈ stored, r.DisjointFrom new := by
  intro always
  have ordered : (0x1000 : Address) ≤ 0x1040 := by decide
  have disjoint : ∀ r ∈ ({⟨0x1000, 0x1040, ordered⟩} : Finset Range),
      r.DisjointFrom ⟨0x1010, 0x1010, UInt64.le_refl _⟩ := by
    rintro r _ addr ⟨_, above, below⟩
    exact absurd below (UInt64.not_lt.mpr above)
  have keyed : Range.asKey.Keyed {⟨0x1000, 0x1040, ordered⟩}
      [(⟨0x1000, 0x1040, ordered⟩, "main")] := by
    constructor
    · exact List.pairwise_singleton ..
    · intro r
      simp [Range.asKey, eq_comm]
  have inserted := (always _ ?_ ?_ _ keyed _ "empty").mpr disjoint
  · cases inserted
  · intro r member
    rw [Finset.mem_singleton.mp member]
    change (0x1000 : Address) < 0x1040
    decide
  · intro left isLeft right isRight different
    rw [Finset.mem_singleton.mp isLeft, Finset.mem_singleton.mp isRight]
      at different
    exact absurd rfl different

end RangeKey

end Lo2s
