import Mathlib.Data.List.Sort

/-!
# Priority queues

The elements of a priority queue, from the one that is taken first to the one
that is taken last.  Only the order of two elements matters, which is total and
transitive; nothing is said about elements that are equally early.
-/

namespace Foundation

/-- A priority queue, from which the earliest element is taken first. -/
structure PriorityQueue {α : Type u} (early : α → α → Prop) where
  elements : List α
  sorted : elements.Pairwise early

namespace PriorityQueue

variable {α : Type u} {early : α → α → Prop}

def empty : PriorityQueue early := ⟨[], .nil⟩

/-- The earliest element. -/
def top? (queue : PriorityQueue early) : Option α := queue.elements.head?

/-- The earliest element and the queue without it. -/
def pop? : PriorityQueue early → Option (α × PriorityQueue early)
  | ⟨[], _⟩ => none
  | ⟨first :: rest, sorted⟩ => some (first, ⟨rest, sorted.of_cons⟩)

def push [DecidableRel early] [Std.Total early] [IsTrans α early]
    (element : α) (queue : PriorityQueue early) : PriorityQueue early :=
  ⟨queue.elements.orderedInsert early element, queue.sorted.orderedInsert _ _⟩

section

variable {queue rest : PriorityQueue early} {first element : α}

theorem pop?_eq_none_iff : queue.pop? = none ↔ queue.elements = [] := by
  obtain ⟨_ | ⟨first, rest⟩, sorted⟩ := queue <;> simp [pop?]

theorem elements_of_pop? (popped : queue.pop? = some (first, rest)) :
    queue.elements = first :: rest.elements := by
  obtain ⟨_ | ⟨head, tail⟩, sorted⟩ := queue
  · cases popped
  · rw [pop?, Option.some.injEq, Prod.mk.injEq] at popped
    obtain ⟨rfl, rfl⟩ := popped
    rfl

/-- The element that is taken is not later than those that stay. -/
theorem early_of_pop? (popped : queue.pop? = some (first, rest))
    (member : element ∈ rest.elements) : early first element := by
  have sorted := queue.sorted
  rw [elements_of_pop? popped] at sorted
  exact List.rel_of_pairwise_cons sorted member

theorem top?_eq_none_iff : queue.top? = none ↔ queue.elements = [] :=
  List.head?_eq_none_iff

theorem mem_of_top? (found : queue.top? = some first) :
    first ∈ queue.elements := List.mem_of_head? found

theorem early_of_top? [Std.Refl early] (found : queue.top? = some first)
    (member : element ∈ queue.elements) : early first element := by
  obtain ⟨_ | ⟨head, tail⟩, sorted⟩ := queue
  · cases found
  · rw [top?, List.head?_cons, Option.some.injEq] at found
    subst found
    rcases List.mem_cons.mp member with rfl | later
    · exact Std.Refl.refl _
    · exact List.rel_of_pairwise_cons sorted later

variable [DecidableRel early] [Std.Total early] [IsTrans α early]

theorem push_perm : (queue.push element).elements.Perm
    (element :: queue.elements) := List.perm_orderedInsert ..

theorem mem_push {other : α} :
    other ∈ (queue.push element).elements ↔
      other = element ∨ other ∈ queue.elements := List.mem_orderedInsert _

theorem length_push : (queue.push element).elements.length =
    queue.elements.length + 1 := List.orderedInsert_length ..

end

end PriorityQueue

end Foundation
