import Lo2s.Foundation.OrderedMap
import Lo2s.Types
import Mathlib.Data.UInt

/-!
# Memory maps

A `MemoryMap` is an ordered map from address ranges to resolvers.  Its ranges
compare by position, so that looking up an address is looking up a range of
length one.
-/

namespace Lo2s

open Foundation

/-- `Address`, a wrapped `uint64_t`. -/
abbrev Address := UInt64

/-- `UINT64_MAX`. -/
def Address.max : Address := 0 - 1

theorem Address.le_max (addr : Address) : addr ≤ .max := by
  rw [UInt64.le_iff_toNat_le]
  have bound := addr.toNat_lt
  change addr.toNat ≤ 2 ^ 64 - 1
  omega

/-- How an address is printed. -/
def Address.hex (addr : Address) : String :=
  String.ofList (Nat.toDigits 16 addr.toNat)

/-- `Range`, the addresses from `start` up to but not including `end_`. -/
structure Range where
  start : Address
  end_ : Address
  ordered : start ≤ end_
  deriving DecidableEq, Repr

namespace Range

/-- The constructor from two bounds. -/
def ofBounds (min_ max_ : Address) : Except Failure Range :=
  if ordered : min_ ≤ max_ then .ok ⟨min_, max_, ordered⟩
  else .error (.runtimeError
    ("malformed range: " ++ min_.hex ++ " > " ++ max_.hex))

theorem ofBounds_eq_ok {min_ max_ : Address} (ordered : min_ ≤ max_) :
    ofBounds min_ max_ = .ok ⟨min_, max_, ordered⟩ := by
  rw [ofBounds, dif_pos ordered]

theorem toNat_succ {point : Address} (notMax : point ≠ .max) :
    (point + 1).toNat = point.toNat + 1 := by
  have small : point.toNat ≠ 2 ^ 64 - 1 := by
    intro same
    apply notMax
    apply UInt64.toNat_inj.mp
    rw [same]
    rfl
  have bound := point.toNat_lt
  rw [UInt64.toNat_add, UInt64.toNat_one]
  omega

theorem le_succ {point : Address} (notMax : point ≠ .max) :
    point ≤ point + 1 := by
  rw [UInt64.le_iff_toNat_le, toNat_succ notMax]
  exact Nat.le_succ _

/-- The constructor from a point; the highest address makes an empty range. -/
def ofPoint (point : Address) : Range :=
  if highest : point = .max then ⟨point, point, UInt64.le_refl point⟩
  else ⟨point, point + 1, le_succ highest⟩

/-- `operator<`. -/
def lt (lhs rhs : Range) : Bool := lhs.end_ ≤ rhs.start

/-- The address is in the range. -/
def Contains (r : Range) (addr : Address) : Prop :=
  r.start ≤ addr ∧ addr < r.end_

instance (r : Range) (addr : Address) : Decidable (r.Contains addr) :=
  inferInstanceAs (Decidable (_ ∧ _))

@[simp] theorem lt_iff {lhs rhs : Range} :
    lhs.lt rhs = true ↔ lhs.end_ ≤ rhs.start := by
  simp [lt]

theorem lt_trans (first second third : Range)
    (left : first.lt second = true) (right : second.lt third = true) :
    first.lt third = true := by
  rw [lt_iff] at left right ⊢
  exact UInt64.le_trans left (UInt64.le_trans second.ordered right)

/-- An address is in a range when neither its point range precedes that range
nor the other way round. -/
theorem contains_iff {r : Range} {addr : Address} :
    r.Contains addr ↔
      r.lt (.ofPoint addr) = false ∧ (ofPoint addr).lt r = false := by
  have ordered := r.ordered
  simp only [← Bool.not_eq_true, lt_iff, UInt64.not_le, Contains, ofPoint]
  by_cases highest : addr = .max
  · simp only [dif_pos highest]
    have below := Address.le_max r.end_
    constructor
    · intro both
      obtain ⟨_, above⟩ := both
      exact absurd (highest ▸ above) (UInt64.not_lt.mpr below)
    · intro both
      obtain ⟨above, _⟩ := both
      exact absurd (highest ▸ above) (UInt64.not_lt.mpr below)
  · simp only [dif_neg highest]
    have next : r.start < addr + 1 ↔ r.start ≤ addr := by
      rw [UInt64.lt_iff_toNat_lt, UInt64.le_iff_toNat_le, toNat_succ highest]
      omega
    rw [next]
    exact and_comm

theorem overlap_ofPoint {r : Range} {addr : Address} :
    OrderedMap.Overlap lt (ofPoint addr) r ↔ r.Contains addr := by
  rw [contains_iff, OrderedMap.Overlap, and_comm]

theorem overlap_of_contains {left right : Range} {addr : Address}
    (inLeft : left.Contains addr) (inRight : right.Contains addr) :
    OrderedMap.Overlap lt left right := by
  obtain ⟨leftLower, leftUpper⟩ := inLeft
  obtain ⟨rightLower, rightUpper⟩ := inRight
  constructor
  · rw [← Bool.not_eq_true, lt_iff]
    grind
  · rw [← Bool.not_eq_true, lt_iff]
    grind

theorem isPoint_ofPoint {addr : Address} :
    OrderedMap.IsPoint lt (ofPoint addr) :=
  fun _ _ left right => overlap_of_contains (overlap_ofPoint.mp left)
    (overlap_ofPoint.mp right)

theorem eq_of_contains_ofPoint {addr other : Address}
    (inside : (ofPoint addr).Contains other) : other = addr := by
  obtain ⟨lower, upper⟩ := inside
  unfold ofPoint at lower upper
  split at lower
  · rename_i highest
    rw [dif_pos highest] at upper
    exact absurd upper (UInt64.not_lt.mpr lower)
  · rename_i notHighest
    rw [dif_neg notHighest] at upper
    have above : addr.toNat ≤ other.toNat := UInt64.le_iff_toNat_le.mp lower
    have below : other.toNat < (addr + 1).toNat :=
      UInt64.lt_iff_toNat_lt.mp upper
    rw [toNat_succ notHighest] at below
    exact UInt64.toNat_inj.mp (by omega)

end Range

/-- `Mapping`: a range and the file offset of its start. -/
structure Mapping where
  range : Range
  pgoff : Address
  deriving DecidableEq, Repr

namespace Mapping

/-- The constructor from an address. -/
def ofAddress (addr : Address) : Mapping := ⟨.ofPoint addr, 0⟩

/-- `operator<`. -/
def lt (lhs rhs : Mapping) : Bool := lhs.range.end_ ≤ rhs.range.start

/-- `in`. -/
def isIn (m other : Mapping) : Bool :=
  m.range.start ≥ other.range.start ∧ m.range.end_ ≤ other.range.end_

/-- The address is in the range. -/
def Contains (m : Mapping) (addr : Address) : Prop :=
  m.range.start ≤ addr ∧ addr < m.range.end_

instance (m : Mapping) (addr : Address) : Decidable (m.Contains addr) :=
  inferInstanceAs (Decidable (_ ∧ _))

@[simp] theorem lt_iff {lhs rhs : Mapping} :
    lhs.lt rhs = true ↔ lhs.range.end_ ≤ rhs.range.start := by
  simp [lt]

@[simp] theorem isIn_iff {m other : Mapping} :
    m.isIn other = true ↔
      other.range.start ≤ m.range.start ∧ m.range.end_ ≤ other.range.end_ := by
  simp [isIn]

theorem lt_trans (first second third : Mapping)
    (left : first.lt second = true) (right : second.lt third = true) :
    first.lt third = true :=
  Range.lt_trans first.range second.range third.range left right

theorem overlap_ofAddress {m : Mapping} {addr : Address} :
    OrderedMap.Overlap lt (ofAddress addr) m ↔ m.Contains addr :=
  Range.overlap_ofPoint (r := m.range)

theorem isPoint_ofAddress {addr : Address} :
    OrderedMap.IsPoint lt (ofAddress addr) :=
  fun left right => Range.isPoint_ofPoint left.range right.range

end Mapping

/-- `MemoryMap`, the entries of `map_` in their order. -/
abbrev MemoryMap (τ : Type) := List (Mapping × τ)

namespace MemoryMap

variable {τ : Type}

def find (addr : Address) (map : MemoryMap τ) : Option (Place (Mapping × τ)) :=
  OrderedMap.find? Mapping.lt (.ofAddress addr) map

/-- What the iterator `find` returns points to. -/
def entryAt (addr : Address) (map : MemoryMap τ) : Option (Mapping × τ) :=
  (find addr map).map Place.entry

/-- `map_.emplace` with the assertion behind it. -/
def emplaceKey (key : Mapping) (content : τ) (map : MemoryMap τ) :
    Except Failure (MemoryMap τ) :=
  match OrderedMap.emplace Mapping.lt key content map with
  | (map, true) => .ok map
  | (_, false) => .error (.assertion "r.second")

/-- Step 1 of `emplace`: delete what is inside the new mapping. -/
def eraseInside (newMapping : Mapping) (map : MemoryMap τ) : MemoryMap τ :=
  map.filter fun elem => !elem.1.isIn newMapping

/-- Step 2 of `emplace`: replace the mapping around the new one by what is in
front of it, the new one, and what is behind it. -/
def splitAround (newMapping : Mapping) (toEmplace : τ)
    (inside : Place (Mapping × τ)) : Except Failure (MemoryMap τ) := do
  let existing := inside.entry.1
  let content := inside.entry.2
  let first ← Range.ofBounds existing.range.start newMapping.range.start
  let map ← emplaceKey ⟨first, existing.pgoff⟩ content inside.erase
  let map ← emplaceKey newMapping toEmplace map
  let second ← Range.ofBounds newMapping.range.end_ existing.range.end_
  emplaceKey ⟨second, existing.pgoff⟩ content map

/-- Step 4.1 of `emplace`: the mapping the new one starts in.  Its end becomes
its own start, not the start of the new mapping. -/
def truncateEnd (newMapping : Mapping) (map : MemoryMap τ) :
    Except Failure (MemoryMap τ) :=
  match find newMapping.range.start map with
  | none => .ok map
  | some place =>
      let existing := place.entry.1
      emplaceKey
        ⟨⟨existing.range.start, existing.range.start, UInt64.le_refl _⟩,
          existing.pgoff⟩ place.entry.2 place.erase

/-- Step 4.2 of `emplace`: the mapping the new one ends in starts at that end,
with the page offset it had. -/
def truncateStart (newMapping : Mapping) (map : MemoryMap τ) :
    Except Failure (MemoryMap τ) :=
  match find newMapping.range.end_ map with
  | none => .ok map
  | some place => do
      let existing := place.entry.1
      let range ← Range.ofBounds newMapping.range.end_ existing.range.end_
      emplaceKey ⟨range, existing.pgoff⟩ place.entry.2 place.erase

def emplace (newMapping : Mapping) (toEmplace : τ) (map : MemoryMap τ) :
    Except Failure (MemoryMap τ) :=
  let map := eraseInside newMapping map
  match findIf (fun elem => newMapping.isIn elem.1) map with
  | some inside => splitAround newMapping toEmplace inside
  | none => do
      let map ← truncateEnd newMapping map
      let map ← truncateStart newMapping map
      .ok (OrderedMap.emplace Mapping.lt newMapping toEmplace map).1

end MemoryMap

end Lo2s
