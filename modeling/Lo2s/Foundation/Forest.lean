import Lo2s.Foundation.KeyOrder
import Mathlib.Data.List.Nodup
import Mathlib.Data.List.Perm.Basic

/-!
# Trees of nested ordered maps

A node holds a value and an ordered map from keys to child nodes.  The maps
are written as sibling lists, so that a whole tree is one plain inductive type:
an entry carries its key, its value, the map below it and the entries after it.

A node is addressed by the path of keys that leads to it.  The lemmas say what
a lookup by path finds after one insertion, and which values the tree holds.
-/

namespace Foundation

open KeyOrder

/-- An ordered map whose mapped type is again a node with such a map. -/
inductive Forest (κ : Type u) (α : Type v) where
  | nil
  | entry (key : κ) (value : α) (children siblings : Forest κ α)

/-- A value together with the map of its children. -/
structure Node (κ : Type u) (α : Type v) where
  value : α
  children : Forest κ α

namespace Forest

variable {κ : Type u} {α : Type v} [KeyOrder κ]

/-- Lookup in one map; the stored key comes with the node. -/
def find? (key : κ) : Forest κ α → Option (κ × Node κ α)
  | .nil => none
  | .entry stored value children siblings =>
      if Equivalent stored key then some (stored, ⟨value, children⟩)
      else siblings.find? key

/-- Insertion in front of the first greater key. -/
def insert (key : κ) (value : α) : Forest κ α → Forest κ α
  | .nil => .entry key value .nil .nil
  | .entry stored old children siblings =>
      if before key stored then
        .entry key value .nil (.entry stored old children siblings)
      else .entry stored old children (siblings.insert key value)

/-- Insertion of a key that may be present: the map, the stored key with its
node, and whether the node is new. -/
def emplace (key : κ) (value : α) (forest : Forest κ α) :
    Forest κ α × (κ × Node κ α) × Bool :=
  match forest.find? key with
  | some found => (forest, found, false)
  | none => (forest.insert key value, (key, ⟨value, .nil⟩), true)

/-- Rewriting the node stored under a key. -/
def update (key : κ) (change : Node κ α → Node κ α) :
    Forest κ α → Forest κ α
  | .nil => .nil
  | .entry stored value children siblings =>
      if Equivalent stored key then
        .entry stored (change ⟨value, children⟩).value
          (change ⟨value, children⟩).children siblings
      else .entry stored value children (siblings.update key change)

/-- All values of a forest, each node before its children. -/
def values : Forest κ α → List α
  | .nil => []
  | .entry _ value children siblings =>
      value :: (children.values ++ siblings.values)

/-- No two keys of one map are equivalent, in the whole forest. -/
def Distinct : Forest κ α → Prop
  | .nil => True
  | .entry stored _ children siblings =>
      siblings.find? stored = none ∧ children.Distinct ∧ siblings.Distinct

theorem find?_congr {left right : κ} (equivalent : Equivalent left right)
    (forest : Forest κ α) : forest.find? left = forest.find? right := by
  induction forest with
  | nil => rfl
  | entry stored value children siblings _ induction =>
      simp only [find?, equivalent.iff_right stored, induction]

theorem find?_key {key : κ} {forest : Forest κ α} {found : κ × Node κ α}
    (result : forest.find? key = some found) : Equivalent found.1 key := by
  induction forest with
  | nil => simp [find?] at result
  | entry stored value children siblings _ induction =>
      by_cases same : Equivalent stored key
      · simp only [find?, if_pos same, Option.some.injEq] at result
        subst result
        exact same
      · simp only [find?, if_neg same] at result
        exact induction result

theorem find?_insert {key : κ} {forest : Forest κ α}
    (absent : forest.find? key = none) (value : α) (query : κ) :
    (forest.insert key value).find? query =
      if Equivalent key query then some (key, ⟨value, .nil⟩)
      else forest.find? query := by
  induction forest with
  | nil => simp [insert, find?]
  | entry stored old children siblings _ induction =>
      have different : ¬ Equivalent stored key := by
        intro same
        simp [find?, same] at absent
      have absentBelow : siblings.find? key = none := by
        simpa [find?, different] using absent
      by_cases smaller : before key stored = true
      · simp [insert, smaller, find?]
      · rw [insert, if_neg smaller, find?, induction absentBelow, find?]
        by_cases same : Equivalent stored query
        · have notKey : ¬ Equivalent key query :=
            fun toQuery => different (same.trans toQuery.symm)
          simp [same, notKey]
        · simp [same]

theorem find?_update (key : κ) (change : Node κ α → Node κ α)
    (forest : Forest κ α) (query : κ) :
    (forest.update key change).find? query =
      if Equivalent key query then
        (forest.find? query).map fun found => (found.1, change found.2)
      else forest.find? query := by
  induction forest with
  | nil => simp [update, find?]
  | entry stored value children siblings _ induction =>
      by_cases same : Equivalent stored key
      · by_cases hit : Equivalent stored query
        · have keyQuery : Equivalent key query := same.symm.trans hit
          simp [update, same, find?, hit, keyQuery]
        · have notQuery : ¬ Equivalent key query :=
            fun toQuery => hit (same.trans toQuery)
          simp [update, same, find?, hit, notQuery]
      · rw [update, if_neg same, find?, induction, find?]
        by_cases hit : Equivalent stored query
        · have notQuery : ¬ Equivalent key query :=
            fun toQuery => same (hit.trans toQuery.symm)
          simp [hit, notQuery]
        · simp [hit]

theorem values_insert (key : κ) (value : α) (forest : Forest κ α) :
    (forest.insert key value).values.Perm (value :: forest.values) := by
  induction forest with
  | nil => simp [insert, values]
  | entry stored old children siblings _ induction =>
      by_cases smaller : before key stored = true
      · simp [insert, smaller, values]
      · simp only [insert, if_neg smaller, values]
        calc
          old :: (children.values ++ (siblings.insert key value).values)
          _ |>.Perm (old :: (children.values ++ value :: siblings.values)) :=
            (induction.append_left children.values).cons old
          _ |>.Perm (old :: value :: (children.values ++ siblings.values)) :=
            List.perm_middle.cons old
          _ |>.Perm (value :: old :: (children.values ++ siblings.values)) :=
            .swap value old _

/-- A node found in a map splits off its values: whatever the change adds to
them is added to the whole forest. -/
theorem values_update {key : κ} {change : Node κ α → Node κ α}
    {forest : Forest κ α} {found : κ × Node κ α} {extra : List α}
    (result : forest.find? key = some found)
    (sameValue : (change found.2).value = found.2.value)
    (grown : (change found.2).children.values.Perm
      (extra ++ found.2.children.values)) :
    (forest.update key change).values.Perm (extra ++ forest.values) := by
  induction forest with
  | nil => simp [find?] at result
  | entry stored value children siblings _ induction =>
      by_cases same : Equivalent stored key
      · simp only [find?, if_pos same, Option.some.injEq] at result
        subst result
        simp only [update, if_pos same, values, sameValue]
        refine List.Perm.trans ?_ List.perm_middle.symm
        apply List.Perm.cons _
        rw [← List.append_assoc]
        exact grown.append_right _
      · simp only [find?, if_neg same] at result
        simp only [update, if_neg same, values]
        refine List.Perm.trans ?_ List.perm_middle.symm
        apply List.Perm.cons _
        apply ((induction result).append_left children.values).trans
        rw [← List.append_assoc, ← List.append_assoc]
        exact List.perm_append_comm.append_right _

theorem mem_values_of_find? {key : κ} {forest : Forest κ α}
    {found : κ × Node κ α} (result : forest.find? key = some found) :
    (found.2.value :: found.2.children.values).Sublist forest.values := by
  induction forest with
  | nil => simp [find?] at result
  | entry stored value children siblings _ induction =>
      by_cases same : Equivalent stored key
      · simp only [find?, if_pos same, Option.some.injEq] at result
        subst result
        exact (List.sublist_append_left _ _).cons_cons _
      · simp only [find?, if_neg same] at result
        exact ((induction result).trans (List.sublist_append_right _ _)).cons _

theorem disjoint_of_find? {left right : κ} {forest : Forest κ α}
    (unique : forest.values.Nodup) {leftFound rightFound : κ × Node κ α}
    (leftResult : forest.find? left = some leftFound)
    (rightResult : forest.find? right = some rightFound)
    (different : ¬ Equivalent left right) :
    List.Disjoint (leftFound.2.value :: leftFound.2.children.values)
      (rightFound.2.value :: rightFound.2.children.values) := by
  induction forest with
  | nil => simp [find?] at leftResult
  | entry stored value children siblings _ induction =>
      rw [values, ← List.cons_append] at unique
      have apart := List.disjoint_of_nodup_append unique
      by_cases atLeft : Equivalent stored left
      · have notRight : ¬ Equivalent stored right :=
          fun atRight => different (atLeft.symm.trans atRight)
        simp only [find?, if_pos atLeft, Option.some.injEq] at leftResult
        simp only [find?, if_neg notRight] at rightResult
        subst leftResult
        exact List.disjoint_of_subset_right
          (mem_values_of_find? rightResult).subset apart
      · simp only [find?, if_neg atLeft] at leftResult
        by_cases atRight : Equivalent stored right
        · simp only [find?, if_pos atRight, Option.some.injEq] at rightResult
          subst rightResult
          intro shared onLeft onRight
          exact apart onRight ((mem_values_of_find? leftResult).subset onLeft)
        · simp only [find?, if_neg atRight] at rightResult
          exact induction unique.of_append_right leftResult rightResult

theorem Distinct.insert {key : κ} {forest : Forest κ α}
    (distinct : forest.Distinct) (absent : forest.find? key = none)
    (value : α) : (forest.insert key value).Distinct := by
  induction forest with
  | nil => simp [Forest.insert, Distinct, find?]
  | entry stored old children siblings _ induction =>
      have different : ¬ Equivalent stored key := by
        intro same
        simp [find?, same] at absent
      have absentBelow : siblings.find? key = none := by
        simpa [find?, different] using absent
      obtain ⟨unique, childrenDistinct, siblingsDistinct⟩ := distinct
      by_cases smaller : before key stored = true
      · rw [Forest.insert, if_pos smaller]
        exact ⟨absent, trivial, unique, childrenDistinct, siblingsDistinct⟩
      · rw [Forest.insert, if_neg smaller]
        refine ⟨?_, childrenDistinct, induction siblingsDistinct absentBelow⟩
        have notStored : ¬ Equivalent key stored :=
          fun same => different same.symm
        rw [find?_insert absentBelow, if_neg notStored]
        exact unique

theorem Distinct.update {key : κ} {change : Node κ α → Node κ α}
    {forest : Forest κ α} (distinct : forest.Distinct)
    (kept : ∀ found, forest.find? key = some found →
      found.2.children.Distinct → (change found.2).children.Distinct) :
    (forest.update key change).Distinct := by
  induction forest with
  | nil => exact trivial
  | entry stored value children siblings _ induction =>
      obtain ⟨unique, childrenDistinct, siblingsDistinct⟩ := distinct
      by_cases same : Equivalent stored key
      · rw [Forest.update, if_pos same]
        refine ⟨unique, ?_, siblingsDistinct⟩
        exact kept (stored, ⟨value, children⟩) (by simp [find?, same])
          childrenDistinct
      · rw [Forest.update, if_neg same]
        refine ⟨?_, childrenDistinct, induction siblingsDistinct ?_⟩
        · have notStored : ¬ Equivalent key stored :=
            fun toStored => same toStored.symm
          rw [find?_update, if_neg notStored]
          exact unique
        · intro found result
          exact kept found (by simpa [find?, same] using result)

end Forest

end Foundation
