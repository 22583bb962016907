import Lo2s.MemoryMap

/-!
# Maps of ranges

A `std::map<Range, T>` without the operations of `MemoryMap`: what is emplaced
stays as it is, and an address is looked up as a range of length one.
-/

namespace Lo2s

open Foundation OrderedMap

/-- `std::map<Range, T>`, its entries in their order. -/
abbrev RangeMap (τ : Type) := List (Range × τ)

namespace RangeMap

variable {τ : Type} {map : RangeMap τ}

/-- `emplace`, which changes nothing if an entry is in the way. -/
def emplace (key : Range) (value : τ) (map : RangeMap τ) : RangeMap τ :=
  (OrderedMap.emplace Range.lt key value map).1

/-- What the iterator that `find` returns points to. -/
def find (addr : Address) (map : RangeMap τ) : Option (Range × τ) :=
  (find? Range.lt (.ofPoint addr) map).map Place.entry

theorem emplace_spec (sorted : Sorted Range.lt map) {key : Range}
    (apart : ∀ x ∈ map, x.1.end_ ≤ key.start ∨ key.end_ ≤ x.1.start)
    (value : τ) :
    Sorted Range.lt (emplace key value map) ∧
      ∀ x, x ∈ emplace key value map ↔ x = (key, value) ∨ x ∈ map := by
  obtain ⟨result, inserted, spec⟩ :=
    OrderedMap.emplace_spec Range.lt_trans sorted
      (fun x member => (apart x member).imp Range.lt_iff.mpr Range.lt_iff.mpr)
      value
  rw [emplace, inserted]
  exact spec

theorem find_eq_some (sorted : Sorted Range.lt map) {x : Range × τ}
    (member : x ∈ map) {addr : Address} (inside : x.1.Contains addr) :
    find addr map = some x :=
  Range.isPoint_ofPoint.find? Range.lt_trans sorted member
    (Range.overlap_ofPoint.mpr inside)

theorem end_le_last (sorted : Sorted Range.lt map) {last : Range × τ}
    (ends : map.getLast? = some last) {x : Range × τ} (member : x ∈ map) :
    x.1.end_ ≤ last.1.end_ := by
  obtain ⟨front, split⟩ := List.getLast?_eq_some_iff.mp ends
  rw [split] at sorted member
  rcases List.mem_append.mp member with earlier | same
  · have before : x.1.end_ ≤ last.1.start := Range.lt_iff.mp
      ((List.pairwise_append.mp sorted).2.2 x earlier last List.mem_cons_self)
    exact UInt64.le_trans before last.1.ordered
  · rw [List.mem_singleton.mp same]
    exact UInt64.le_refl _

end RangeMap

end Lo2s
