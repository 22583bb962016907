import Lo2s.Foundation.Forest

/-!
# Nodes addressed by paths

`emplaceAt` adds a child below the node at a path, as an owner of a pointer to
that node would.  One insertion adds at most one path, leaves the value at
every other path alone, and adds exactly the new value to the tree.
-/

namespace Foundation

open KeyOrder

namespace Node

variable {κ : Type u} {α : Type v} [KeyOrder κ]

/-- The node a path leads to. -/
def at? : List κ → Node κ α → Option (Node κ α)
  | [], node => some node
  | key :: path, node =>
      (node.children.find? key).bind fun found => found.2.at? path

/-- The value stored at a path. -/
def valueAt (path : List κ) (node : Node κ α) : Option α :=
  (node.at? path).map Node.value

/-- Insertion of a child below the node at a path: the tree, the stored key
with its node, and whether the node is new.  A path that leads nowhere changes
nothing. -/
def emplaceAt (key : κ) (value : α) :
    List κ → Node κ α → Node κ α × (κ × Node κ α) × Bool
  | [], node =>
      let emplaced := node.children.emplace key value
      ({ node with children := emplaced.1 }, emplaced.2)
  | step :: path, node =>
      match node.children.find? step with
      | none => (node, (key, ⟨value, .nil⟩), false)
      | some found =>
          let emplaced := found.2.emplaceAt key value path
          ({ node with
              children := node.children.update step fun _ => emplaced.1 },
            emplaced.2)

@[simp] theorem valueAt_nil (node : Node κ α) :
    node.valueAt [] = some node.value := rfl

theorem valueAt_cons (key : κ) (path : List κ) (node : Node κ α) :
    node.valueAt (key :: path) =
      (node.children.find? key).bind fun found => found.2.valueAt path := by
  cases known : node.children.find? key <;> simp [valueAt, at?, known]

theorem valueAt_singleton_eq_none_iff {key : κ} {node : Node κ α} :
    node.valueAt [key] = none ↔ node.children.find? key = none := by
  cases known : node.children.find? key <;> simp [valueAt_cons, known]

theorem valueAt_leaf (value : α) (path : List κ) :
    (⟨value, .nil⟩ : Node κ α).valueAt path =
      if path = [] then some value else none := by
  cases path with
  | nil => rfl
  | cons key path => simp [valueAt_cons, Forest.find?]

theorem valueAt_isSome_of_append {path inner : List κ} {node : Node κ α}
    (present : (node.valueAt (path ++ inner)).isSome) :
    (node.valueAt path).isSome := by
  induction path generalizing node with
  | nil => rfl
  | cons key path induction =>
      rw [List.cons_append, valueAt_cons] at present
      rw [valueAt_cons]
      cases known : node.children.find? key with
      | none => simp [known] at present
      | some found =>
          rw [known, Option.bind_some] at present
          exact induction present

theorem valueAt_congr {left right : List κ}
    (equivalent : EquivalentPaths left right) (node : Node κ α) :
    node.valueAt left = node.valueAt right := by
  induction equivalent generalizing node with
  | nil => rfl
  | @cons leftKey rightKey left right head _ induction =>
      rw [valueAt_cons, valueAt_cons, Forest.find?_congr head]
      cases node.children.find? rightKey with
      | none => rfl
      | some found => exact induction found.2

end Node

namespace Forest

section

variable {κ : Type u} {α : Type v}

/-- The paths to all entries, each entry before those below it. -/
def paths : Forest κ α → List (List κ)
  | .nil => []
  | .entry key _ children siblings =>
      [key] :: (children.paths.map (key :: ·) ++ siblings.paths)

theorem mem_paths_here {key : κ} {value : α} {children siblings : Forest κ α} :
    [key] ∈ (Forest.entry key value children siblings).paths :=
  List.mem_cons_self

theorem mem_paths_below {key : κ} {value : α} {children siblings : Forest κ α}
    {path : List κ} (member : path ∈ children.paths) :
    key :: path ∈ (Forest.entry key value children siblings).paths :=
  List.mem_cons_of_mem _ (List.mem_append_left _ (List.mem_map_of_mem member))

theorem mem_paths_after {key : κ} {value : α} {children siblings : Forest κ α}
    {path : List κ} (member : path ∈ siblings.paths) :
    path ∈ (Forest.entry key value children siblings).paths :=
  List.mem_cons_of_mem _ (List.mem_append_right _ member)

end

variable {κ : Type u} {α : Type v} [KeyOrder κ]

/-- The value at a path into a map; the empty path names no entry of it. -/
def valueAt : List κ → Forest κ α → Option α
  | [], _ => none
  | key :: path, forest =>
      (forest.find? key).bind fun found => found.2.valueAt path

@[simp] theorem valueAt_empty (path : List κ) :
    (Forest.nil : Forest κ α).valueAt path = none := by
  cases path <;> rfl

theorem valueAt_children (key : κ) (path : List κ) (node : Node κ α) :
    node.valueAt (key :: path) = node.children.valueAt (key :: path) :=
  Node.valueAt_cons key path node

/-- The first entry of a map answers the paths that start with its key. -/
theorem valueAt_entry (stored : κ) (value : α) (children siblings : Forest κ α)
    (key : κ) (path : List κ) :
    (Forest.entry stored value children siblings).valueAt (key :: path) =
      if Equivalent stored key then
        (⟨value, children⟩ : Node κ α).valueAt path
      else siblings.valueAt (key :: path) := by
  simp only [valueAt, find?]
  split <;> rfl

/-- Where no two keys of a map are equivalent, each value has a path. -/
theorem exists_valueAt {forest : Forest κ α} (distinct : forest.Distinct)
    {value : α} (member : value ∈ forest.values) :
    ∃ path, forest.valueAt path = some value := by
  induction forest with
  | nil => simp [values] at member
  | entry stored old children siblings inductionChildren inductionSiblings =>
      obtain ⟨absent, childrenDistinct, siblingsDistinct⟩ := distinct
      rcases List.mem_cons.mp member with same | below
      · exact ⟨[stored], by simp [valueAt_entry, same]⟩
      · rcases List.mem_append.mp below with inChildren | inSiblings
        · obtain ⟨path, found⟩ := inductionChildren childrenDistinct inChildren
          refine ⟨stored :: path, ?_⟩
          cases path with
          | nil => cases found
          | cons key path =>
              rw [valueAt_entry, if_pos (.refl stored), valueAt_children]
              exact found
        · obtain ⟨path, found⟩ := inductionSiblings siblingsDistinct inSiblings
          refine ⟨path, ?_⟩
          cases path with
          | nil => cases found
          | cons key path =>
              have different : ¬ Equivalent stored key := by
                intro same
                rw [valueAt, ← find?_congr same, absent] at found
                cases found
              rw [valueAt_entry, if_neg different]
              exact found

theorem valueAt_of_mem_paths {forest : Forest κ α} (distinct : forest.Distinct)
    {path : List κ} (member : path ∈ forest.paths) :
    (forest.valueAt path).isSome := by
  induction forest generalizing path with
  | nil => simp [paths] at member
  | entry stored old children siblings inductionChildren inductionSiblings =>
      obtain ⟨absent, childrenDistinct, siblingsDistinct⟩ := distinct
      rcases List.mem_cons.mp member with rfl | below
      · simp [valueAt_entry]
      · rcases List.mem_append.mp below with inChildren | inSiblings
        · obtain ⟨inner, known, rfl⟩ := List.mem_map.mp inChildren
          have present := inductionChildren childrenDistinct known
          cases inner with
          | nil => cases present
          | cons key inner =>
              rw [valueAt_entry, if_pos (.refl stored), valueAt_children]
              exact present
        · have present := inductionSiblings siblingsDistinct inSiblings
          cases path with
          | nil => cases present
          | cons key path =>
              have different : ¬ Equivalent stored key := by
                intro same
                rw [valueAt, ← find?_congr same, absent] at present
                cases present
              rw [valueAt_entry, if_neg different]
              exact present

end Forest

namespace Node

variable {κ : Type u} {α : Type v} [KeyOrder κ]

theorem emplaceAt_value (key : κ) (value : α) (path : List κ)
    (node : Node κ α) :
    (node.emplaceAt key value path).1.value = node.value := by
  cases path with
  | nil => rfl
  | cons step path =>
      simp only [emplaceAt]
      cases node.children.find? step <;> rfl

private theorem valueAt_emplace_iff (key : κ) (value : α)
    (forest : Forest κ α) (query : κ) (path : List κ) (result : α) :
    (((forest.emplace key value).1.find? query).bind fun found =>
        found.2.valueAt path) = some result ↔
      ((forest.find? query).bind fun found => found.2.valueAt path) =
          some result ∨
        forest.find? key = none ∧ EquivalentPaths [key] (query :: path) ∧
          result = value := by
  cases known : forest.find? key with
  | some found => simp [Forest.emplace, known]
  | none =>
      simp only [Forest.emplace, known, Forest.find?_insert known]
      by_cases same : Equivalent key query
      · have absent : forest.find? query = none := by
          rw [← Forest.find?_congr same, known]
        by_cases last : path = []
        · subst last
          simp [same, absent, eq_comm]
        · simp [same, absent, valueAt_leaf, last]
      · simp [same]

/-- What a lookup finds after one insertion: what it found before, or the new
value at the one path that was free. -/
theorem valueAt_emplaceAt_iff {path : List κ} {node : Node κ α}
    (present : (node.valueAt path).isSome) (key : κ) (value : α)
    (query : List κ) (result : α) :
    (node.emplaceAt key value path).1.valueAt query = some result ↔
      node.valueAt query = some result ∨
        node.valueAt (path ++ [key]) = none ∧
          EquivalentPaths (path ++ [key]) query ∧ result = value := by
  induction path generalizing node query with
  | nil =>
      cases query with
      | nil => simp [emplaceAt]
      | cons head query =>
          rw [valueAt_cons, valueAt_cons, emplaceAt, valueAt_emplace_iff,
            List.nil_append, valueAt_singleton_eq_none_iff]
  | cons step path induction =>
      rw [valueAt_cons] at present
      obtain ⟨found, known⟩ :
          ∃ found, node.children.find? step = some found := by
        cases known : node.children.find? step with
        | none => simp [known] at present
        | some found => exact ⟨found, rfl⟩
      have childPresent : (found.2.valueAt path).isSome := by
        simpa [known] using present
      simp only [emplaceAt, known]
      cases query with
      | nil => simp
      | cons head query =>
          rw [valueAt_cons, Forest.find?_update, valueAt_cons,
            List.cons_append, valueAt_cons, known]
          by_cases same : Equivalent step head
          · have sameEntry : node.children.find? head = some found := by
              rw [← Forest.find?_congr same, known]
            simp [same, sameEntry, induction childPresent]
          · simp [same]

/-- The values stored below a node. -/
def values (node : Node κ α) : List α := node.children.values

theorem valueAt_mem_values {path : List κ} {node : Node κ α} {value : α}
    (result : node.valueAt path = some value) (inside : path ≠ []) :
    value ∈ node.values := by
  induction path generalizing node with
  | nil => exact absurd rfl inside
  | cons key path induction =>
      rw [valueAt_cons] at result
      cases known : node.children.find? key with
      | none => simp [known] at result
      | some found =>
          have below := (Forest.mem_values_of_find? known).subset
          simp only [known, Option.bind_some] at result
          cases path with
          | nil =>
              rw [valueAt_nil, Option.some.injEq] at result
              exact below (result ▸ List.mem_cons_self)
          | cons next path =>
              exact below (List.mem_cons_of_mem _
                (induction result (List.cons_ne_nil _ _)))

theorem mem_values_of_valueAt {path : List κ} {node : Node κ α} {value : α}
    (result : node.valueAt path = some value) :
    value ∈ node.value :: node.values := by
  by_cases last : path = []
  · rw [last, valueAt_nil, Option.some.injEq] at result
    exact result ▸ List.mem_cons_self
  · exact List.mem_cons_of_mem _ (valueAt_mem_values result last)

/-- Where no value is stored twice, a value determines its path. -/
theorem equivalentPaths_of_valueAt {left right : List κ} {node : Node κ α}
    {value : α} (unique : node.values.Nodup)
    (leftInside : left ≠ []) (leftResult : node.valueAt left = some value)
    (rightInside : right ≠ []) (rightResult : node.valueAt right = some value) :
    EquivalentPaths left right := by
  induction left generalizing node right with
  | nil => exact absurd rfl leftInside
  | cons leftKey left induction =>
      cases right with
      | nil => exact absurd rfl rightInside
      | cons rightKey right =>
          rw [valueAt_cons] at leftResult rightResult
          cases leftKnown : node.children.find? leftKey with
          | none => simp [leftKnown] at leftResult
          | some leftFound =>
          cases rightKnown : node.children.find? rightKey with
          | none => simp [rightKnown] at rightResult
          | some rightFound =>
          simp only [leftKnown, Option.bind_some] at leftResult
          simp only [rightKnown, Option.bind_some] at rightResult
          by_cases same : Equivalent leftKey rightKey
          · rw [Forest.find?_congr same, rightKnown,
              Option.some.injEq] at leftKnown
            subst leftKnown
            apply List.Forall₂.cons same
            have below := unique.sublist (Forest.mem_values_of_find? rightKnown)
            obtain ⟨fresh, belowUnique⟩ := List.nodup_cons.mp below
            -- A value at the node itself is not stored below it.
            by_cases leftEnd : left = []
            · by_cases rightEnd : right = []
              · rw [leftEnd, rightEnd]
                exact .nil
              · rw [leftEnd, valueAt_nil, Option.some.injEq] at leftResult
                exact absurd (leftResult ▸ valueAt_mem_values rightResult rightEnd)
                  fresh
            · by_cases rightEnd : right = []
              · rw [rightEnd, valueAt_nil, Option.some.injEq] at rightResult
                exact absurd (rightResult ▸ valueAt_mem_values leftResult leftEnd)
                  fresh
              · exact induction belowUnique leftEnd leftResult rightEnd rightResult
          · have apart :=
              Forest.disjoint_of_find? unique leftKnown rightKnown same
            exact (apart (mem_values_of_valueAt leftResult)
              (mem_values_of_valueAt rightResult)).elim

/-- The node an insertion answers with sits at the requested path, and its
value is the old one exactly when the path was taken. -/
theorem emplaceAt_result {path : List κ} {node : Node κ α}
    (present : (node.valueAt path).isSome) (key : κ) (value : α) :
    let emplaced := node.emplaceAt key value path
    Equivalent emplaced.2.1.1 key ∧
      emplaced.2.2 = (node.valueAt (path ++ [key])).isNone ∧
        some emplaced.2.1.2.value =
          (node.valueAt (path ++ [key])).or (some value) := by
  induction path generalizing node with
  | nil =>
      cases known : node.children.find? key with
      | none =>
          simp [emplaceAt, Forest.emplace, known, valueAt_cons]
      | some found =>
          simp [emplaceAt, Forest.emplace, known, valueAt_cons,
            Forest.find?_key known]
  | cons step path induction =>
      rw [valueAt_cons] at present
      cases known : node.children.find? step with
      | none => simp [known] at present
      | some found =>
          have childPresent : (found.2.valueAt path).isSome := by
            simpa [known] using present
          simpa [emplaceAt, known, valueAt_cons] using induction childPresent

/-- An insertion adds its value to the tree exactly when it made a node. -/
theorem values_emplaceAt {path : List κ} {node : Node κ α}
    (present : (node.valueAt path).isSome) (key : κ) (value : α) :
    let emplaced := node.emplaceAt key value path
    emplaced.1.values.Perm
      ((if emplaced.2.2 then [value] else []) ++ node.values) := by
  induction path generalizing node with
  | nil =>
      cases known : node.children.find? key with
      | none =>
          simp only [emplaceAt, Forest.emplace, known, values]
          exact Forest.values_insert key value node.children
      | some found =>
          simp [emplaceAt, Forest.emplace, known, values]
  | cons step path induction =>
      rw [valueAt_cons] at present
      cases known : node.children.find? step with
      | none => simp [known] at present
      | some found =>
          have childPresent : (found.2.valueAt path).isSome := by
            simpa [known] using present
          simp only [emplaceAt, known, values]
          exact Forest.values_update known
            (emplaceAt_value key value path found.2) (induction childPresent)

theorem distinct_emplaceAt {node : Node κ α}
    (distinct : node.children.Distinct) (key : κ) (value : α)
    (path : List κ) :
    (node.emplaceAt key value path).1.children.Distinct := by
  induction path generalizing node with
  | nil =>
      cases known : node.children.find? key with
      | none =>
          simp only [emplaceAt, Forest.emplace, known]
          exact distinct.insert known value
      | some found => simpa [emplaceAt, Forest.emplace, known] using distinct
  | cons step path induction =>
      cases known : node.children.find? step with
      | none => simpa [emplaceAt, known] using distinct
      | some found =>
          simp only [emplaceAt, known]
          apply distinct.update
          intro other result childDistinct
          rw [known, Option.some.injEq] at result
          subst result
          exact induction childDistinct

end Node

end Foundation
