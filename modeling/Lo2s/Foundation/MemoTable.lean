import Lo2s.Foundation.OrderedMap
import Mathlib.Data.List.Induction

/-!
# Memo tables with keys that overlap

A memo table keeps the values of a function in an ordered map.  A query looks
for an entry that overlaps its probe; if there is none, its value is computed
and stored under its key, which may cover more than the probe, and what is
answered is the entry that then stands there.

The answers are those of the function, whatever has been asked before, exactly
if the function has the same value at any two queries whose keys overlap.
-/

namespace Foundation

/-- What a memo table stores and how it asks for it. -/
structure MemoTable (α : Type u) (κ : Type v) (τ : Type w) where
  less : κ → κ → Bool
  probe : α → κ
  key : α → κ
  value : α → τ

namespace MemoTable

open OrderedMap

variable {α : Type u} {κ : Type v} {τ : Type w}

/-- The answer to a query, and the map after it. -/
def lookup (table : MemoTable α κ τ) (query : α) (entries : List (κ × τ)) :
    τ × List (κ × τ) :=
  match find? table.less (table.probe query) entries with
  | some place => (place.entry.2, entries)
  | none =>
      (emplaced table.less (table.key query) (table.value query) entries,
        (emplace table.less (table.key query) (table.value query) entries).1)

/-- The map after some queries. -/
def after (table : MemoTable α κ τ) (queries : List α) : List (κ × τ) :=
  queries.foldl (fun entries query => (table.lookup query entries).2) []

/-- Every query is answered as if it were the first one. -/
def Transparent (table : MemoTable α κ τ) : Prop :=
  ∀ queries query, (table.lookup query (table.after queries)).1 =
    (table.lookup query []).1

/-- The entries are values of the function, in the order of their keys. -/
structure Stored (table : MemoTable α κ τ) (entries : List (κ × τ)) : Prop where
  sorted : Sorted table.less entries
  values : ∀ entry ∈ entries, ∃ query,
    entry = (table.key query, table.value query)

theorem lookup_nil (table : MemoTable α κ τ) (query : α) :
    table.lookup query [] =
      (table.value query, [(table.key query, table.value query)]) := rfl

section

variable {table : MemoTable α κ τ} {entries : List (κ × τ)}
  (trans : ∀ first second third, table.less first second = true →
    table.less second third = true → table.less first third = true)
include trans

theorem Stored.lookup (stored : table.Stored entries) (query : α) :
    table.Stored (table.lookup query entries).2 := by
  rw [MemoTable.lookup]
  cases find? table.less (table.probe query) entries with
  | some place => exact stored
  | none =>
      rcases emplace_cases trans stored.sorted (table.key query)
        (table.value query) with
          ⟨result, inserted, _, sorted, members⟩ | ⟨last, _, kept, _⟩
      · rw [inserted]
        refine ⟨sorted, fun entry member => ?_⟩
        rcases (members entry).mp member with rfl | earlier
        · exact ⟨query, rfl⟩
        · exact stored.values entry earlier
      · rw [kept]
        exact stored

theorem stored_after (queries : List α) : table.Stored (table.after queries) := by
  induction queries using List.reverseRecOn with
  | nil => exact ⟨List.Pairwise.nil, fun _ absent => nomatch absent⟩
  | append_singleton queries query induction =>
      rw [after, List.foldl_append]
      exact Stored.lookup trans induction query

/-- A memo table whose probes are inside the keys of their queries is transparent
exactly if queries with overlapping keys have the same value. -/
theorem transparent_iff
    (within : ∀ query key, Overlap table.less (table.probe query) key →
      Overlap table.less (table.key query) key) :
    table.Transparent ↔
      ∀ left right, Overlap table.less (table.key left) (table.key right) →
        table.value left = table.value right := by
  constructor
  · intro transparent left right overlap
    have answer : (table.lookup left
        [(table.key right, table.value right)]).1 = table.value left :=
      transparent [right] left
    rw [← answer, lookup]
    cases found : find? table.less (table.probe left)
        [(table.key right, table.value right)] with
    | some place =>
        exact congrArg Prod.snd (List.mem_singleton.mp (find?_mem found))
    | none => exact emplaced_singleton overlap (table.value left)
  · intro same queries query
    have stored : table.Stored (table.after queries) :=
      stored_after trans queries
    have agree : ∀ entry ∈ table.after queries,
        Overlap table.less (table.key query) entry.1 →
          entry.2 = table.value query := by
      intro entry member overlap
      obtain ⟨earlier, rfl⟩ := stored.values entry member
      exact (same query earlier overlap).symm
    rw [lookup_nil, lookup]
    cases found : find? table.less (table.probe query) (table.after queries) with
    | some place =>
        obtain ⟨_, overlap⟩ := find?_some found
        exact agree place.entry (find?_mem found) (within query _ overlap)
    | none =>
        rcases emplace_cases trans stored.sorted (table.key query)
          (table.value query) with
            ⟨_, _, answer, _⟩ | ⟨last, member, _, answer, overlap⟩
        · exact answer
        · exact answer.trans (agree last member overlap)

end

end MemoTable

end Foundation
