import Mathlib.Data.List.AList
import Mathlib.Data.List.Sort

/-!
# Finite maps

Association lists whose keys are distinct, for maps of which only lookups and
insertions matter.  A key that is there already can keep its value or get a new
one.
-/

namespace Foundation

/-- A finite map. -/
abbrev FiniteMap (κ : Type u) (τ : Type v) := AList fun _ : κ => τ

namespace FiniteMap

variable {κ : Type u} {τ : Type v} [DecidableEq κ]

/-- Insertion that keeps the value of a key that is there already. -/
def insertIfNew (key : κ) (value : τ) (map : FiniteMap κ τ) : FiniteMap κ τ :=
  if key ∈ map then map else map.insert key value

theorem mem_iff_lookup {key : κ} {map : FiniteMap κ τ} :
    key ∈ map ↔ ∃ value, map.lookup key = some value := by
  rw [← AList.lookup_isSome, Option.isSome_iff_exists]

theorem mem_insertIfNew {key other : κ} {value : τ} {map : FiniteMap κ τ} :
    other ∈ map.insertIfNew key value ↔ other = key ∨ other ∈ map := by
  unfold insertIfNew
  split_ifs with known
  · constructor
    · exact .inr
    · rintro (rfl | there)
      · exact known
      · exact there
  · exact AList.mem_insert map

theorem lookup_insert (key other : κ) (value : τ) (map : FiniteMap κ τ) :
    AList.lookup other (map.insert key value) =
      if other = key then some value else map.lookup other := by
  by_cases same : other = key
  · rw [same, AList.lookup_insert, if_pos rfl]
  · rw [AList.lookup_insert_ne same, if_neg same]

theorem lookup_insertIfNew (key other : κ) (value : τ)
    (map : FiniteMap κ τ) :
    AList.lookup other (map.insertIfNew key value) =
      if other = key then some ((map.lookup key).getD value)
      else map.lookup other := by
  by_cases known : key ∈ map
  · obtain ⟨old, found⟩ := mem_iff_lookup.mp known
    rw [insertIfNew, if_pos known]
    by_cases same : other = key
    · rw [if_pos same, same, found, Option.getD_some]
    · rw [if_neg same]
  · rw [insertIfNew, if_neg known, lookup_insert,
      AList.lookup_eq_none.mpr known, Option.getD_none]

theorem insertIfNew_of_lookup {key : κ} {old : τ} {map : FiniteMap κ τ}
    (found : map.lookup key = some old) (value : τ) :
    map.insertIfNew key value = map := by
  rw [insertIfNew, if_pos (mem_iff_lookup.mpr ⟨old, found⟩)]

/-- The insertion of one entry after the other. -/
def insertAllIfNew (entries : List (κ × τ)) (map : FiniteMap κ τ) :
    FiniteMap κ τ :=
  entries.foldl (fun map entry => map.insertIfNew entry.1 entry.2) map

theorem lookup_insertAllIfNew (entries : List (κ × τ)) (map : FiniteMap κ τ)
    (key : κ) :
    AList.lookup key (map.insertAllIfNew entries) =
      (map.lookup key).or
        ((entries.find? fun entry => entry.1 = key).map Prod.snd) := by
  induction entries generalizing map with
  | nil => exact Option.or_none.symm
  | cons entry entries induction =>
      rw [insertAllIfNew, List.foldl_cons, ← insertAllIfNew, induction,
        lookup_insertIfNew]
      rw [List.find?_cons]
      by_cases same : key = entry.1
      · rw [if_pos same, decide_eq_true same.symm, same]
        cases map.lookup entry.1 with
        | none => rfl
        | some old => rfl
      · rw [if_neg same, decide_eq_false (Ne.symm same)]

/-- Every entry is found if and only if none of them disagrees with another
one or with what was there before. -/
theorem lookup_insertAllIfNew_iff {entries : List (κ × τ)}
    {map : FiniteMap κ τ} :
    (∀ entry ∈ entries,
        AList.lookup entry.1 (map.insertAllIfNew entries) = some entry.2) ↔
      ∀ entry ∈ entries, (∀ old, map.lookup entry.1 = some old →
          old = entry.2) ∧
        ∀ other ∈ entries, other.1 = entry.1 → other.2 = entry.2 := by
  constructor
  · intro found entry member
    constructor
    · intro old there
      have lookup := found entry member
      rw [lookup_insertAllIfNew, there] at lookup
      exact Option.some.inj lookup
    · intro other isOther sameKey
      have lookup := found other isOther
      rw [sameKey, found entry member] at lookup
      exact (Option.some.inj lookup).symm
  · intro agree entry member
    obtain ⟨oldAgrees, otherAgrees⟩ := agree entry member
    rw [lookup_insertAllIfNew]
    cases there : map.lookup entry.1 with
    | some old => rw [oldAgrees old there, Option.some_or]
    | none =>
        rw [Option.none_or]
        cases first : entries.find? fun other => other.1 = entry.1 with
        | none =>
            have none := List.find?_eq_none.mp first entry member
            exact absurd (decide_eq_true rfl) none
        | some other =>
            have sameKey := List.find?_some first
            rw [Option.map_some, otherAgrees other
              (List.mem_of_find?_eq_some first) (of_decide_eq_true sameKey)]

/-- The map with every value changed. -/
def mapValues {κ : Type u} {τ : Type v} (change : κ → τ → τ)
    (map : FiniteMap κ τ) : FiniteMap κ τ where
  entries := map.entries.map fun entry => ⟨entry.1, change entry.1 entry.2⟩
  nodupKeys := by
    have keys := map.nodupKeys
    rw [List.NodupKeys, List.keys] at keys ⊢
    rwa [List.map_map]

theorem lookup_mapValues (change : κ → τ → τ) (key : κ)
    (map : FiniteMap κ τ) :
    AList.lookup key (map.mapValues change) =
      (map.lookup key).map (change key) := by
  show List.dlookup key (map.entries.map fun entry =>
    (⟨entry.1, change entry.1 entry.2⟩ : Sigma fun _ : κ => τ)) =
      (List.dlookup key map.entries).map (change key)
  induction map.entries with
  | nil => rfl
  | cons entry entries induction =>
      obtain ⟨other, value⟩ := entry
      by_cases same : key = other
      · subst same
        simp
      · simp [same, induction]

/-- The entries in the order of their keys. -/
def ascending (notAbove : κ → κ → Prop) [DecidableRel notAbove]
    (map : FiniteMap κ τ) : List (κ × τ) :=
  (map.entries.map fun entry => (entry.1, entry.2)).insertionSort
    fun left right => notAbove left.1 right.1

theorem mem_ascending {notAbove : κ → κ → Prop} [DecidableRel notAbove]
    {key : κ} {value : τ} {map : FiniteMap κ τ} :
    (key, value) ∈ map.ascending notAbove ↔ map.lookup key = some value := by
  rw [ascending, (List.perm_insertionSort _ _).mem_iff, List.mem_map,
    ← Option.mem_def, AList.mem_lookup_iff]
  constructor
  · rintro ⟨entry, member, same⟩
    cases same
    exact member
  · intro member
    exact ⟨_, member, rfl⟩

end FiniteMap

end Foundation
