import Lo2s.PerfMap
import Mathlib.Order.Bounds.Defs

/-!
# The bounds of a perf map

Addresses are looked up relative to the start of the mapping, and the mapping is
what the process map asks for.  Its start is that of the first line, which is
the lowest one only by chance.
-/

namespace Lo2s

open Foundation Scan OrderedMap

namespace PerfMapEntry

/-- The range has an address, and an end that is one. -/
def Fits (entry : PerfMapEntry) : Prop :=
  0 < entry.size.value ∧ entry.stop < 2 ^ 64

/-- What the map has for an entry. -/
structure Stored (entry : PerfMapEntry) (x : Range × LineInfo) : Prop where
  start : x.1.start.toNat = entry.start.value
  stop : x.1.end_.toNat = entry.stop
  info : x.2 = entry.info

variable {entry : PerfMapEntry}

theorem Stored.contains {x : Range × LineInfo} (stored : entry.Stored x)
    {addr : Address} (inside : entry.Contains addr) : x.1.Contains addr := by
  obtain ⟨lower, upper⟩ := inside
  constructor
  · rw [UInt64.le_iff_toNat_le, stored.start]
    exact lower
  · rw [UInt64.lt_iff_toNat_lt, stored.stop]
    exact upper

theorem Stored.apart {left right : PerfMapEntry} {x y : Range × LineInfo}
    (leftStored : left.Stored x) (rightStored : right.Stored y)
    (apart : left.Apart right) :
    x.1.end_ ≤ y.1.start ∨ y.1.end_ ≤ x.1.start := by
  rw [UInt64.le_iff_toNat_le, UInt64.le_iff_toNat_le, leftStored.stop,
    rightStored.start, rightStored.stop, leftStored.start]
  exact apart

/-- The start of an entry, as the constructor reads it. -/
def address (entry : PerfMapEntry) : Address := .ofHex entry.start.digits

theorem Fits.toNat_address (fits : entry.Fits) :
    entry.address.toNat = entry.start.value := by
  apply Address.toNat_ofHex
  have below := fits.2
  rw [stop] at below
  omega

theorem Fits.address_ne_max (fits : entry.Fits) : entry.address ≠ .max := by
  intro highest
  have value := fits.toNat_address
  rw [highest] at value
  obtain ⟨nonempty, below⟩ := fits
  change 2 ^ 64 - 1 = entry.start.value at value
  rw [stop] at below
  omega

theorem Fits.toNat_stop (fits : entry.Fits) :
    (entry.address + .ofHex entry.size.digits).toNat = entry.stop := by
  have below := fits.2
  rw [stop] at below
  have size : (Address.ofHex entry.size.digits).toNat = entry.size.value :=
    Address.toNat_ofHex (by omega)
  rw [UInt64.toNat_add, fits.toNat_address, size, Nat.mod_eq_of_lt below, stop]

end PerfMapEntry

/-- The range goes from the smallest start to the largest end. -/
structure Mapping.Covers (m : Mapping) (entries : List PerfMapEntry) : Prop where
  start : IsLeast {bound | ∃ entry ∈ entries, bound = entry.start.value}
    m.range.start.toNat
  stop : IsGreatest {bound | ∃ entry ∈ entries, bound = entry.stop}
    m.range.end_.toNat

namespace PerfMap

/-- The map after some entries. -/
structure Holds (map : PerfMap) (entries : List PerfMapEntry) : Prop where
  sorted : Sorted Range.lt map.entries
  fits : ∀ entry ∈ entries, entry.Fits
  sound : ∀ x ∈ map.entries, ∃ entry ∈ entries, entry.Stored x
  complete : ∀ entry ∈ entries, ∃ x ∈ map.entries, entry.Stored x
  start : map.start = (entries.head?.map PerfMapEntry.address).getD .max

theorem Holds.init : init.Holds [] where
  sorted := List.Pairwise.nil
  fits := fun _ absent => nomatch absent
  sound := fun _ absent => nomatch absent
  complete := fun _ absent => nomatch absent
  start := rfl

variable {map : PerfMap} {entries : List PerfMapEntry}

theorem Holds.next_start (holds : map.Holds entries) (entry : PerfMapEntry) :
    (if map.start = .max then entry.address else map.start) =
      ((entries ++ [entry]).head?.map PerfMapEntry.address).getD .max := by
  rw [holds.start]
  cases entries with
  | nil => exact if_pos rfl
  | cons first entries =>
      exact if_neg (holds.fits first List.mem_cons_self).address_ne_max

theorem Holds.addLine (holds : map.Holds entries) {entry : PerfMapEntry}
    (fits : entry.Fits) (apart : ∀ other ∈ entries, other.Apart entry) :
    ∃ result, addLine map (String.ofList entry.line) = .ok result ∧
      result.Holds (entries ++ [entry]) := by
  have ordered : entry.address ≤ entry.address + .ofHex entry.size.digits := by
    rw [UInt64.le_iff_toNat_le, fits.toNat_address, fits.toNat_stop,
      PerfMapEntry.stop]
    exact Nat.le_add_right _ _
  let range : Range := ⟨_, _, ordered⟩
  have stored : entry.Stored (range, entry.info) :=
    ⟨fits.toNat_address, fits.toNat_stop, rfl⟩
  have free : ∀ x ∈ map.entries,
      x.1.end_ ≤ range.start ∨ range.end_ ≤ x.1.start := by
    intro x member
    obtain ⟨other, listed, otherStored⟩ := holds.sound x member
    exact otherStored.apart stored (apart other listed)
  obtain ⟨sorted, members⟩ :=
    RangeMap.emplace_spec holds.sorted free entry.info
  refine ⟨{ map with
    entries := map.entries.emplace range entry.info
    start := if map.start = .max then entry.address else map.start }, ?_, ?_⟩
  · have bounds : Range.ofBounds (.ofHex entry.start.digits)
        (.ofHex entry.start.digits + .ofHex entry.size.digits) = .ok range :=
      Range.ofBounds_eq_ok ordered
    simp only [PerfMap.addLine, String.toList_ofList, perfMapRegex_line, bounds]
    rfl
  · constructor
    case sorted => exact sorted
    case fits =>
      intro other member
      rcases List.mem_append.mp member with earlier | same
      · exact holds.fits other earlier
      · rw [List.mem_singleton.mp same]
        exact fits
    case sound =>
      intro x member
      rcases (members x).mp member with rfl | old
      · exact ⟨entry, by simp, stored⟩
      · obtain ⟨other, listed, otherStored⟩ := holds.sound x old
        exact ⟨other, List.mem_append_left _ listed, otherStored⟩
    case complete =>
      intro other member
      rcases List.mem_append.mp member with earlier | same
      · obtain ⟨x, old, otherStored⟩ := holds.complete other earlier
        exact ⟨x, (members x).mpr (.inr old), otherStored⟩
      · rw [List.mem_singleton.mp same]
        exact ⟨_, (members _).mpr (.inl rfl), stored⟩
    case start => exact holds.next_start entry

theorem Holds.addLines (lines : List PerfMapLine) (holds : map.Holds entries)
    (fits : ∀ entry ∈ listed lines, entry.Fits)
    (apart : (entries ++ listed lines).Pairwise PerfMapEntry.Apart) :
    ∃ result, addLines (lines.map PerfMapLine.text) map = .ok result ∧
      result.Holds (entries ++ listed lines) := by
  induction lines generalizing map entries with
  | nil => exact ⟨map, rfl, by simpa [listed] using holds⟩
  | cons line lines induction =>
      cases line with
      | other text unmatched =>
          have skipped : PerfMap.addLine map (String.ofList text) = .ok map := by
            rw [PerfMap.addLine, String.toList_ofList, unmatched]
          simp only [List.map_cons, PerfMapLine.text, PerfMap.addLines, skipped]
          exact induction holds fits apart
      | symbol entry =>
          have all : listed (.symbol entry :: lines) = entry :: listed lines := rfl
          rw [all] at fits apart ⊢
          have other : ∀ earlier ∈ entries, earlier.Apart entry :=
            fun earlier member => (List.pairwise_append.mp apart).2.2 earlier
              member entry List.mem_cons_self
          obtain ⟨result, added, next⟩ :=
            holds.addLine (fits entry List.mem_cons_self) other
          rw [List.append_cons] at apart ⊢
          simp only [List.map_cons, PerfMapLine.text, PerfMap.addLines, added]
          exact induction next
            (fun later member => fits later (List.mem_cons_of_mem _ member)) apart

theorem addLine_end {result : PerfMap} {line : String}
    (added : addLine map line = .ok result) : result.end_ = map.end_ := by
  unfold addLine at added
  split at added
  · cases added
    rfl
  · rename_i startText sizeText symbol _
    cases bounds : Range.ofBounds (.ofHex startText)
        (.ofHex startText + .ofHex sizeText) with
    | error failure =>
        simp only [bounds] at added
        cases added
    | ok range =>
        simp only [bounds] at added
        cases added
        rfl

theorem addLines_end {result : PerfMap} {lines : List String}
    (added : addLines lines map = .ok result) : result.end_ = map.end_ := by
  induction lines generalizing map with
  | nil =>
      cases added
      rfl
  | cons line lines induction =>
      rw [addLines] at added
      cases first : addLine map line with
      | error failure =>
          rw [first] at added
          cases added
      | ok next =>
          rw [first] at added
          exact (induction added).trans (addLine_end first)

/-- The map ends with its last entry. -/
def EndsLast (map : PerfMap) : Prop :=
  map.end_ = (map.entries.getLast?.map fun last => last.1.end_).getD .max

theorem ofFile_spec {lines : List PerfMapLine}
    (fits : ∀ entry ∈ listed lines, entry.Fits)
    (apart : (listed lines).Pairwise PerfMapEntry.Apart) :
    ∃ map, ofFile (lines.map PerfMapLine.text) = .ok map ∧
      map.Holds (listed lines) ∧ map.EndsLast := by
  obtain ⟨map, added, holds⟩ := Holds.init.addLines lines fits apart
  rw [List.nil_append] at holds
  rw [ofFile, added]
  cases ends : map.entries.getLast? with
  | none =>
      refine ⟨map, by simp only [Bind.bind, Except.bind, ends]; rfl, holds, ?_⟩
      rw [EndsLast, ends]
      exact addLines_end added
  | some last =>
      refine ⟨{ map with end_ := last.1.end_ },
        by simp only [Bind.bind, Except.bind, ends]; rfl, ?_, ?_⟩
      · exact ⟨holds.sorted, holds.fits, holds.sound, holds.complete, holds.start⟩
      · simp [EndsLast, ends]

/-- An address in an entry is looked up relative to the start of the map. -/
theorem Holds.lookup (holds : map.Holds entries) {entry : PerfMapEntry}
    (member : entry ∈ entries) {addr : Address} (inside : entry.Contains addr) :
    map.lookupLineInfo (addr - map.start) = entry.info := by
  obtain ⟨x, stored, spec⟩ := holds.complete entry member
  have found : map.entries.find (addr - map.start + map.start) = some x := by
    rw [UInt64.sub_add_cancel]
    exact RangeMap.find_eq_some holds.sorted stored (spec.contains inside)
  rw [lookupLineInfo, found]
  exact spec.info

theorem EndsLast.exists_last (ends : map.EndsLast) {x : Range × LineInfo}
    (member : x ∈ map.entries) :
    ∃ last, map.entries.getLast? = some last ∧ map.end_ = last.1.end_ := by
  cases isLast : map.entries.getLast? with
  | none =>
      rw [List.getLast?_eq_none_iff.mp isLast] at member
      cases member
  | some last =>
      rw [EndsLast, isLast] at ends
      exact ⟨last, rfl, ends⟩

theorem Holds.stop_le (holds : map.Holds entries) (ends : map.EndsLast)
    {entry : PerfMapEntry} (member : entry ∈ entries) :
    entry.stop ≤ map.end_.toNat := by
  obtain ⟨x, stored, spec⟩ := holds.complete entry member
  obtain ⟨last, isLast, same⟩ := ends.exists_last stored
  rw [← spec.stop, same, ← UInt64.le_iff_toNat_le]
  exact RangeMap.end_le_last holds.sorted isLast stored

theorem Holds.exists_stop (holds : map.Holds entries) (ends : map.EndsLast)
    {entry : PerfMapEntry} (member : entry ∈ entries) :
    ∃ other ∈ entries, map.end_.toNat = other.stop := by
  obtain ⟨x, stored, _⟩ := holds.complete entry member
  obtain ⟨last, isLast, same⟩ := ends.exists_last stored
  obtain ⟨other, listed, spec⟩ :=
    holds.sound last (List.mem_of_getLast? isLast)
  rw [same]
  exact ⟨other, listed, spec.stop⟩

theorem Holds.covers {m : Mapping} {first : PerfMapEntry}
    {later : List PerfMapEntry} (holds : map.Holds (first :: later))
    (ends : map.EndsLast)
    (lowest : ∀ entry ∈ first :: later, first.start.value ≤ entry.start.value)
    (start : m.range.start = map.start) (stop : m.range.end_ = map.end_) :
    m.Covers (first :: later) := by
  have fits := holds.fits first List.mem_cons_self
  have firstStart : m.range.start.toNat = first.start.value := by
    rw [start, holds.start]
    exact fits.toNat_address
  constructor
  case start =>
    rw [firstStart]
    refine ⟨⟨first, List.mem_cons_self, rfl⟩, ?_⟩
    rintro _ ⟨entry, member, rfl⟩
    exact lowest entry member
  case stop =>
    rw [stop]
    refine ⟨holds.exists_stop ends List.mem_cons_self, ?_⟩
    rintro _ ⟨entry, member, rfl⟩
    exact holds.stop_le ends member

/-- The perf map can be read, its mapping covers all entries, and each address
in an entry is resolved to that entry. -/
def Resolves (lines : List PerfMapLine) : Prop :=
  ∃ map mapping, ofFile (lines.map PerfMapLine.text) = .ok map ∧
    map.mapping = .ok mapping ∧
    (listed lines ≠ [] → mapping.Covers (listed lines)) ∧
    ∀ entry ∈ listed lines, ∀ addr, entry.Contains addr →
      map.lookupLineInfo (addr - mapping.range.start) = entry.info

def FirstLowest (entries : List PerfMapEntry) : Prop :=
  ∀ first ∈ entries.head?, ∀ entry ∈ entries,
    first.start.value ≤ entry.start.value

instance (entries : List PerfMapEntry) : Decidable (FirstLowest entries) :=
  inferInstanceAs (Decidable (∀ first ∈ entries.head?, _))

theorem Holds.ordered (holds : map.Holds entries) (ends : map.EndsLast) :
    map.start ≤ map.end_ := by
  cases entries with
  | nil =>
      have empty : map.entries = [] := by
        apply List.eq_nil_iff_forall_not_mem.mpr
        intro x member
        obtain ⟨_, absent, _⟩ := holds.sound x member
        cases absent
      rw [EndsLast, empty] at ends
      rw [holds.start, ends]
      exact UInt64.le_refl _
  | cons first later =>
      have fits := holds.fits first List.mem_cons_self
      have stop := holds.stop_le ends List.mem_cons_self
      rw [holds.start, UInt64.le_iff_toNat_le]
      calc first.address.toNat = first.start.value := fits.toNat_address
        _ ≤ first.stop := Nat.le_add_right _ _
        _ ≤ map.end_.toNat := stop

theorem mapping_range {map : PerfMap} {m : Mapping} (made : map.mapping = .ok m) :
    m.range.start = map.start ∧ m.range.end_ = map.end_ := by
  unfold mapping at made
  unfold Range.ofBounds at made
  split at made
  · cases made
    exact ⟨rfl, rfl⟩
  · cases made

theorem mapping_ok {map : PerfMap} (ordered : map.start ≤ map.end_) :
    map.mapping = .ok ⟨⟨map.start, map.end_, ordered⟩, 0⟩ := by
  rw [mapping, Range.ofBounds_eq_ok ordered]
  rfl

/-- A perf map resolves its symbols exactly if its first entry is the lowest one
and no entry reaches up to the end of the address space. -/
theorem resolves_iff (lines : List PerfMapLine)
    (nonempty : ∀ entry ∈ listed lines, 0 < entry.size.value)
    (disjoint : (listed lines).Pairwise PerfMapEntry.Apart) :
    Resolves lines ↔ FirstLowest (listed lines) ∧
      ∀ entry ∈ listed lines, entry.stop < 2 ^ 64 := by
  constructor
  · rintro ⟨map, mapping, made, mapped, covers, _⟩
    obtain ⟨start, stop⟩ := mapping_range mapped
    -- The largest end is that of a range, so it is an address.
    have below : ∀ entry ∈ listed lines, entry.stop < 2 ^ 64 := by
      intro entry member
      have greatest := (covers (List.ne_nil_of_mem member)).stop.2
      exact (greatest ⟨entry, member, rfl⟩).trans_lt mapping.range.end_.toNat_lt
    refine ⟨?_, below⟩
    have fits : ∀ entry ∈ listed lines, entry.Fits := fun entry member =>
      ⟨nonempty entry member, below entry member⟩
    obtain ⟨same, ok, holds, _⟩ := ofFile_spec fits disjoint
    cases made.symm.trans ok
    intro first isFirst entry member
    have firstStart : map.start = first.address := by
      rw [holds.start, isFirst]
      rfl
    have least := (covers (List.ne_nil_of_mem member)).start.2
    have lower : mapping.range.start.toNat ≤ entry.start.value :=
      least ⟨entry, member, rfl⟩
    rwa [start, firstStart,
      (fits first (List.mem_of_head? isFirst)).toNat_address] at lower
  · rintro ⟨lowest, below⟩
    have fits : ∀ entry ∈ listed lines, entry.Fits := fun entry member =>
      ⟨nonempty entry member, below entry member⟩
    obtain ⟨map, made, holds, ends⟩ := ofFile_spec fits disjoint
    have ordered := holds.ordered ends
    refine ⟨map, _, made, mapping_ok ordered, ?_, fun entry member addr inside =>
      holds.lookup member inside⟩
    intro some_entry
    obtain ⟨first, later, split⟩ := List.exists_cons_of_ne_nil some_entry
    rw [split] at holds lowest ⊢
    exact holds.covers ends (lowest first rfl) rfl rfl

def laterEmitted : PerfMapEntry where
  start := ⟨"7000".toList, by decide, List.all_eq_true.mp (by decide)⟩
  size := ⟨"20".toList, by decide, List.all_eq_true.mp (by decide)⟩
  symbol := "py::main:run.py".toList
  symbol_text := ⟨by decide, by simp [endsLine]⟩

def earlierEmitted : PerfMapEntry where
  start := ⟨"4000".toList, by decide, List.all_eq_true.mp (by decide)⟩
  size := ⟨"10".toList, by decide, List.all_eq_true.mp (by decide)⟩
  symbol := "trampoline".toList
  symbol_text := ⟨by decide, by simp [endsLine]⟩

theorem ascending_resolves :
    Resolves [.symbol earlierEmitted, .symbol laterEmitted] :=
  (resolves_iff [.symbol earlierEmitted, .symbol laterEmitted]
    (by decide) (by decide)).mpr ⟨by decide, by decide⟩

def descending : List PerfMapLine :=
  [.symbol laterEmitted, .symbol earlierEmitted]

/-- The mapping starts with the first line, above the second one. -/
theorem descending_unresolved :
    (∀ entry ∈ listed descending, 0 < entry.size.value) ∧
      (listed descending).Pairwise PerfMapEntry.Apart ∧
      ¬ Resolves descending := by
  refine ⟨by decide, by decide, ?_⟩
  rintro ⟨map, mapping, made, mapped, covers, _⟩
  have first : (ofFile (descending.map PerfMapLine.text)).map PerfMap.start =
      .ok 0x7000 := by decide +kernel
  rw [made] at first
  have start : map.start = 0x7000 := Except.ok.inj first
  have least := (covers (List.cons_ne_nil _ _)).start.2
  have lower : mapping.range.start.toNat ≤ earlierEmitted.start.value :=
    least ⟨earlierEmitted, .tail _ (.head _), rfl⟩
  rw [(mapping_range mapped).1, start] at lower
  exact absurd lower (by decide)

end PerfMap

end Lo2s
