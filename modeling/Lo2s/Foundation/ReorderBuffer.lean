import Lo2s.Foundation.PriorityQueue
import Mathlib.Data.List.Count
import Mathlib.Data.List.MinMax
import Mathlib.Order.Basic

/-!
# Sorting an almost sorted list

A list is sorted with a priority queue of bounded size: each element is put into
the queue, and as soon as the queue holds `limit` elements the first one is
taken out again.  What is left at the end is taken out in order.  The result is
sorted if no element comes `limit` or more places behind its rank.

An element is earlier by its key.  The queue is any implementation that keeps
the promises of `QueueLaws`, so that nothing depends on how it orders elements
with the same key.
-/

namespace Foundation

/-- What the user of a priority queue is promised. -/
structure QueueLaws {α : Type u} (early : α → α → Prop) (Q : Type v) where
  elements : Q → List α
  empty : Q
  push : α → Q → Q
  pop? : Q → Option (α × Q)
  elements_empty : elements empty = []
  push_perm : ∀ element queue,
    (elements (push element queue)).Perm (element :: elements queue)
  elements_of_none : ∀ queue, pop? queue = none → elements queue = []
  pop?_perm : ∀ queue first rest, pop? queue = some (first, rest) →
    (elements queue).Perm (first :: elements rest)
  pop?_early : ∀ queue first rest, pop? queue = some (first, rest) →
    ∀ other ∈ elements rest, early first other

/-- Sorted lists keep the promises. -/
def PriorityQueue.laws {α : Type u} {early : α → α → Prop}
    [DecidableRel early] [Std.Total early] [IsTrans α early] :
    QueueLaws early (PriorityQueue early) where
  elements queue := queue.elements
  empty := .empty
  push := push
  pop? := pop?
  elements_empty := rfl
  push_perm _ _ := push_perm
  elements_of_none _ none := pop?_eq_none_iff.mp none
  pop?_perm _ _ _ popped := by rw [elements_of_pop? popped]
  pop?_early _ _ _ popped _ member := early_of_pop? popped member

namespace QueueLaws

variable {α : Type u} {κ : Type w} {Q : Type v}

section

variable {early : α → α → Prop} (queue : QueueLaws early Q)

def size (content : Q) : Nat := (queue.elements content).length

/-- What leaves the queue while a list is put into it, and what stays. -/
def feed (limit : Nat) : List α → Q → List α × Q
  | [], content => ([], content)
  | element :: rest, content =>
      let filled := queue.push element content
      if limit ≤ queue.size filled then
        match queue.pop? filled with
        | none => feed limit rest filled
        | some (first, content) =>
            let r := feed limit rest content
            (first :: r.1, r.2)
      else feed limit rest filled

/-- Taking out elements one after the other. -/
def drain : Nat → Q → List α
  | 0, _ => []
  | n + 1, content =>
      match queue.pop? content with
      | none => []
      | some (first, rest) => first :: drain n rest

/-- The order in which the elements of a list leave the queue. -/
def reorder (limit : Nat) (list : List α) : List α :=
  let r := queue.feed limit list queue.empty
  r.1 ++ queue.drain (queue.size r.2) r.2

theorem feed_perm (limit : Nat) (list : List α) (content : Q) :
    ((queue.feed limit list content).1 ++
      queue.elements (queue.feed limit list content).2).Perm
        (list ++ queue.elements content) := by
  induction list generalizing content with
  | nil => exact .refl _
  | cons element rest induction =>
      have pushed : (rest ++ queue.elements (queue.push element content)).Perm
          (element :: rest ++ queue.elements content) :=
        ((queue.push_perm element content).append_left rest).trans
          List.perm_middle
      rw [feed]
      split
      · split
        · exact (induction _).trans pushed
        · rename_i first left popped
          have taken : (rest ++ (first :: queue.elements left)).Perm
              (rest ++ queue.elements (queue.push element content)) :=
            (queue.pop?_perm _ _ _ popped).symm.append_left rest
          exact ((induction left).cons first).trans
            (List.perm_middle.symm.trans (taken.trans pushed))
      · exact (induction _).trans pushed

theorem size_of_pop? {content rest : Q} {first : α}
    (popped : queue.pop? content = some (first, rest)) :
    queue.size content = queue.size rest + 1 :=
  (queue.pop?_perm _ _ _ popped).length_eq.trans (List.length_cons ..)

theorem drain_perm (content : Q) :
    (queue.drain (queue.size content) content).Perm
      (queue.elements content) := by
  generalize count : queue.size content = n
  induction n generalizing content with
  | zero =>
      rw [List.length_eq_zero_iff.mp count]
      exact .refl _
  | succ n induction =>
      rw [drain]
      split
      · rw [queue.elements_of_none _ ‹_›]
      · rename_i first rest popped
        have left : queue.size rest = n :=
          Nat.succ.inj ((queue.size_of_pop? popped).symm.trans count)
        exact ((induction rest left).cons first).trans
          (queue.pop?_perm _ _ _ popped).symm

theorem reorder_perm (limit : Nat) (list : List α) :
    (queue.reorder limit list).Perm list := by
  have fed := queue.feed_perm limit list queue.empty
  rw [queue.elements_empty, List.append_nil] at fed
  exact ((queue.drain_perm _).append_left _).trans fed

theorem drain_pairwise (n : Nat) (content : Q)
    (count : queue.size content = n) :
    (queue.drain n content).Pairwise early := by
  induction n generalizing content with
  | zero => exact .nil
  | succ n induction =>
      rw [drain]
      split
      · exact .nil
      · rename_i first rest popped
        have left : queue.size rest = n :=
          Nat.succ.inj ((queue.size_of_pop? popped).symm.trans count)
        refine List.pairwise_cons.mpr ⟨fun other member => ?_,
          induction rest left⟩
        refine queue.pop?_early _ _ _ popped other ?_
        rw [← left] at member
        exact (queue.drain_perm rest).subset member

end

section

variable [LinearOrder κ] {key : α → κ}
  (queue : QueueLaws (fun first other => key first ≤ key other) Q)

/-- How many elements of a list are before an element. -/
def rank (key : α → κ) (list : List α) (element : α) : Nat :=
  list.countP fun other => key other < key element

/-- No element is `limit` or more places behind its rank. -/
def Window (key : α → κ) (limit : Nat) (list : List α) : Prop :=
  ∀ i element, list[i]? = some element → i < rank key list element + limit

/-- When the queue is full, its first element is before all that is to come:
the first one to come would otherwise be too far behind its rank. -/
theorem first_le_rest {limit : Nat} {list before rest out : List α}
    (window : Window key limit list) (split : list = before ++ rest)
    {content left : Q} {first : α}
    (perm : before.Perm (out ++ queue.elements content))
    (full : limit ≤ queue.size content)
    (popped : queue.pop? content = some (first, left)) :
    ∀ element ∈ rest, key first ≤ key element := by
  intro element member
  obtain ⟨least, found⟩ : ∃ least, rest.argmin key = some least := by
    rw [← Option.isSome_iff_exists, Option.isSome_iff_ne_none, ne_eq,
      List.argmin_eq_none]
    exact List.ne_nil_of_mem member
  have known : least ∈ rest := List.argmin_mem found
  have isLeast : ∀ other ∈ rest, key least ≤ key other := fun other within =>
    List.le_of_mem_argmin within found
  refine le_trans ?_ (isLeast element member)
  rw [← not_lt]
  intro smaller
  obtain ⟨j, position⟩ := List.mem_iff_getElem?.mp known
  have inList : list[before.length + j]? = some least := by
    rw [split, List.getElem?_append_right (Nat.le_add_right ..),
      Nat.add_sub_cancel_left]
    exact position
  have bound := window _ _ inList
  have inQueue : (queue.elements content).countP
      (fun other => key other < key least) = 0 := by
    rw [List.countP_eq_zero]
    intro other within
    rw [decide_eq_true_eq, not_lt]
    apply smaller.le.trans
    rcases List.mem_cons.mp ((queue.pop?_perm _ _ _ popped).subset within) with
      rfl | later
    · exact le_rfl
    · exact queue.pop?_early _ _ _ popped other later
  have inRest : rest.countP (fun other => key other < key least) = 0 := by
    rw [List.countP_eq_zero]
    intro other within
    rw [decide_eq_true_eq, not_lt]
    exact isLeast other within
  have ranked : rank key list least ≤ out.length := by
    rw [rank, split, List.countP_append, inRest, perm.countP_eq,
      List.countP_append, inQueue]
    exact List.countP_le_length
  have lengths : before.length = out.length + queue.size content := by
    rw [perm.length_eq, List.length_append]
    rfl
  omega

/-- A list on its way through the queue: `out` has left it in order, and `rest`
is to come. -/
structure Underway (before rest out : List α) (content : Q) : Prop where
  perm : before.Perm (out ++ queue.elements content)
  sorted : out.Pairwise fun first other => key first ≤ key other
  ahead : ∀ element ∈ out, ∀ other ∈ queue.elements content ++ rest,
    key element ≤ key other

section

variable {queue} {before rest out : List α} {content left : Q}
  {element first : α}

theorem Underway.push
    (underway : queue.Underway before (element :: rest) out content) :
    queue.Underway (before ++ [element]) rest out
      (queue.push element content) := by
  have filled := queue.push_perm element content
  constructor
  · apply (underway.perm.append_right [element]).trans
    rw [List.append_assoc]
    apply List.Perm.append_left
    exact (List.perm_append_singleton element _).trans filled.symm
  · exact underway.sorted
  · intro first member other within
    apply underway.ahead first member other
    rcases List.mem_append.mp within with inQueue | inRest
    · rcases List.mem_cons.mp (filled.subset inQueue) with rfl | old
      · exact List.mem_append_right _ List.mem_cons_self
      · exact List.mem_append_left _ old
    · exact List.mem_append_right _ (List.mem_cons_of_mem _ inRest)

/-- The first element of the queue follows what has left, if it is before what
is to come. -/
theorem Underway.pop (underway : queue.Underway before rest out content)
    (popped : queue.pop? content = some (first, left))
    (firstAhead : ∀ element ∈ rest, key first ≤ key element) :
    queue.Underway before rest (out ++ [first]) left := by
  have taken := queue.pop?_perm _ _ _ popped
  have member : first ∈ queue.elements content :=
    taken.symm.subset List.mem_cons_self
  constructor
  · rw [List.append_assoc]
    exact underway.perm.trans (taken.append_left out)
  · refine List.pairwise_append.mpr ⟨underway.sorted,
      List.pairwise_singleton .., fun old within other single => ?_⟩
    rw [List.mem_singleton.mp single]
    exact underway.ahead old within first (List.mem_append_left _ member)
  · intro old within other later
    rcases List.mem_append.mp within with inOut | single
    · apply underway.ahead old inOut other
      rcases List.mem_append.mp later with inLeft | inRest
      · exact List.mem_append_left _
          (taken.symm.subset (List.mem_cons_of_mem _ inLeft))
      · exact List.mem_append_right _ inRest
    · rw [List.mem_singleton.mp single]
      rcases List.mem_append.mp later with inLeft | inRest
      · exact queue.pop?_early _ _ _ popped other inLeft
      · exact firstAhead other inRest

end

/-- What has left the queue is sorted and before all that stays. -/
theorem feed_sorted {limit : Nat} {list : List α}
    (window : Window key limit list) (rest : List α) {before out : List α}
    {content : Q} (split : list = before ++ rest)
    (underway : queue.Underway before rest out content) :
    ((out ++ (queue.feed limit rest content).1).Pairwise
      fun first other => key first ≤ key other) ∧
    ∀ element ∈ out ++ (queue.feed limit rest content).1,
      ∀ other ∈ queue.elements (queue.feed limit rest content).2,
        key element ≤ key other := by
  induction rest generalizing before out content with
  | nil =>
      have ahead := underway.ahead
      simp only [feed, List.append_nil] at ahead ⊢
      exact ⟨underway.sorted, ahead⟩
  | cons element rest induction =>
      have pushed := underway.push
      have split' : list = (before ++ [element]) ++ rest := by
        rw [split, List.append_assoc, List.singleton_append]
      rw [feed]
      split
      · split
        · exact induction split' pushed
        · rename_i full _ first left popped
          have firstAhead :=
            queue.first_le_rest window split' pushed.perm full popped
          have step := induction split' (pushed.pop popped firstAhead)
          simpa only [List.append_assoc, List.singleton_append] using step
      · exact induction split' pushed

theorem reorder_sorted {limit : Nat} {list : List α}
    (window : Window key limit list) :
    (queue.reorder limit list).Pairwise
      fun first other => key first ≤ key other := by
  have start : queue.Underway [] list [] queue.empty := by
    refine ⟨?_, .nil, fun _ none => absurd none List.not_mem_nil⟩
    rw [queue.elements_empty, List.append_nil]
  obtain ⟨sorted, ahead⟩ := queue.feed_sorted window list rfl start
  rw [List.nil_append] at sorted ahead
  refine List.pairwise_append.mpr ⟨sorted, queue.drain_pairwise _ _ rfl,
    fun element member other later => ?_⟩
  exact ahead element member other ((queue.drain_perm _).subset later)

end

end QueueLaws

end Foundation
