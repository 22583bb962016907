import Mathlib.Logic.Function.Basic
import Mathlib.Tactic.Common

/-!
# Parent links

Every known node has a parent, which is another node or the root.  A node is
rooted when its links lead to the root; giving a node a new parent keeps all
nodes rooted unless the node lies on the way from that parent to the root.
-/

namespace Foundation

/-- The parents of the known nodes; the parent `none` is the root. -/
abbrev ParentLinks (κ : Type u) := κ → Option (Option κ)

namespace ParentLinks

variable {κ : Type u} {links : ParentLinks κ}

/-- The links lead from a node to the root. -/
inductive Rooted (links : ParentLinks κ) : Option κ → Prop where
  | root : Rooted links none
  | link {node : κ} {parent : Option κ} : links node = some parent →
      Rooted links parent → Rooted links (some node)

/-- A node lies on the way from another one to the root. -/
inductive Above (links : ParentLinks κ) (target : κ) : Option κ → Prop where
  | here : Above links target (some target)
  | link {node : κ} {parent : Option κ} : links node = some parent →
      Above links target parent → Above links target (some node)

/-- All known nodes are rooted. -/
def Tree (links : ParentLinks κ) : Prop :=
  ∀ node parent, links node = some parent → Rooted links (some node)

theorem Rooted.not_above {target : κ} {parent start : Option κ}
    (rooted : Rooted links start) (loop : links target = some parent)
    (below : Above links target parent) : ¬ Above links target start := by
  induction rooted with
  | root => exact fun above => nomatch above
  | @link node next known _ induction =>
      intro above
      cases above with
      | here =>
          rw [loop, Option.some.injEq] at known
          exact induction (known ▸ below)
      | link sameKnown later =>
          rw [known, Option.some.injEq] at sameKnown
          exact induction (sameKnown ▸ later)

theorem Rooted.not_above_of_unknown {target : κ} {start : Option κ}
    (rooted : Rooted links start) (unknown : links target = none) :
    ¬ Above links target start := by
  induction rooted with
  | root => exact fun above => nomatch above
  | @link node next known _ induction =>
      intro above
      cases above with
      | here =>
          rw [unknown] at known
          cases known
      | link sameKnown later =>
          rw [known, Option.some.injEq] at sameKnown
          exact induction (sameKnown ▸ later)

variable [DecidableEq κ]

/-- The links with a new parent for one node. -/
def relink (links : ParentLinks κ) (node : κ) (parent : Option κ) :
    ParentLinks κ :=
  Function.update links node (some parent)

theorem relink_self (links : ParentLinks κ) (node : κ) (parent : Option κ) :
    links.relink node parent node = some parent :=
  Function.update_self ..

theorem relink_of_ne {node other : κ} (different : other ≠ node)
    (links : ParentLinks κ) (parent : Option κ) :
    links.relink node parent other = links other :=
  Function.update_of_ne different ..

theorem relink_ne_none {node other : κ} {parent : Option κ}
    (known : links other ≠ none) : links.relink node parent other ≠ none := by
  by_cases same : other = node
  · simp [same, relink_self]
  · rwa [relink_of_ne same]

theorem Rooted.relink_of_not_above {node : κ} {parent start : Option κ}
    (rooted : Rooted links start) (apart : ¬ Above links node start) :
    Rooted (links.relink node parent) start := by
  induction rooted with
  | root => exact .root
  | @link other next known _ induction =>
      have different : other ≠ node := by
        rintro rfl
        exact apart .here
      exact .link ((relink_of_ne different links parent).trans known)
        (induction fun above => apart (.link known above))

theorem Rooted.relink {node : κ} {parent start : Option κ}
    (rooted : Rooted links start) (parentRooted : Rooted links parent)
    (apart : ¬ Above links node parent) :
    Rooted (links.relink node parent) start := by
  have parentStays : Rooted (links.relink node parent) parent :=
    parentRooted.relink_of_not_above apart
  induction rooted with
  | root => exact .root
  | @link other next known _ induction =>
      by_cases same : other = node
      · subst same
        exact .link (relink_self links other parent) parentStays
      · exact .link ((relink_of_ne same links parent).trans known) induction

theorem Tree.relink {node : κ} {parent : Option κ} (tree : Tree links)
    (parentRooted : Rooted links parent) (apart : ¬ Above links node parent) :
    Tree (links.relink node parent) := by
  intro other next known
  by_cases same : other = node
  · subst same
    exact .link (relink_self links other parent)
      (parentRooted.relink_of_not_above apart)
  · rw [relink_of_ne same] at known
    exact (tree other next known).relink parentRooted apart

theorem Above.relink {node : κ} {parent start : Option κ}
    (above : Above links node start) :
    Above (links.relink node parent) node start := by
  induction above with
  | here => exact .here
  | @link other next known _ induction =>
      by_cases same : other = node
      · exact same ▸ .here
      · exact .link ((relink_of_ne same links parent).trans known) induction

/-- If the result is a tree, the new parent is not below the node. -/
theorem Tree.not_above_of_relink {node : κ} {parent : Option κ}
    (tree : Tree (links.relink node parent)) : ¬ Above links node parent := by
  intro below
  have known := relink_self links node parent
  exact (tree node parent known).not_above known below.relink .here

end ParentLinks

end Foundation
