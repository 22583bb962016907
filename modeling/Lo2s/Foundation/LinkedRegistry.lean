import Lo2s.Foundation.FiniteMap

/-!
# Registries of linked definitions

A registry keeps definitions by their references, and some of them under a key
too.  A definition may be linked to an older one: a reader of its reference sees
the labels on the way to it from a definition without a link.  As long as there
are references for all definitions, a definition reads as it has been made.
-/

namespace Foundation

/-- A definition as it is read: its label, and the reference it is linked to. -/
structure LinkedRecord (ι : Type u) (α : Type v) where
  label : α
  parent : Option ι
  deriving DecidableEq, Repr

/-- How definitions of type `δ` are counted, referred to, found under keys, made
and read. -/
structure LinkedRegistry (ρ : Type u) (κ : Type v) (δ : Type w) (ι : Type x)
    (α : Type y) where
  size : ρ → Nat
  ref : δ → ι
  find : ρ → κ → Option δ
  create (key : Option κ) (label : α) (parent : Option δ) (r : ρ) : δ × ρ
  read : ρ → ι → Option (LinkedRecord ι α)

namespace LinkedRegistry

variable {ρ : Type u} {κ : Type v} {δ : Type w} {ι : Type x} {α : Type y}
  {registry : LinkedRegistry ρ κ δ ι α} {capacity : Nat} {r next final : ρ}

/-- The labels that lead to a reference, its own last. -/
inductive Leads (registry : LinkedRegistry ρ κ δ ι α) (r : ρ) :
    ι → List α → Prop where
  | top {ref : ι} {label : α} :
      registry.read r ref = some ⟨label, none⟩ → Leads registry r ref [label]
  | linked {ref parent : ι} {label : α} {labels : List α} :
      registry.read r ref = some ⟨label, some parent⟩ →
      Leads registry r parent labels →
      Leads registry r ref (labels ++ [label])

/-- The definition under a key, made if need be. -/
def emplace (registry : LinkedRegistry ρ κ δ ι α) (key : κ) (label : α)
    (r : ρ) : δ × ρ :=
  match registry.find r key with
  | some definition => (definition, r)
  | none => registry.create (some key) label none r

/-- What a registry with references for so many definitions is relied on for. -/
structure Lawful [DecidableEq κ] (registry : LinkedRegistry ρ κ δ ι α)
    (capacity : Nat) : Prop where
  size_create : ∀ (key : Option κ) (label : α) (parent : Option δ) (r : ρ),
    registry.size (registry.create key label parent r).2 = registry.size r + 1
  read_create : ∀ {r} (key : Option κ) (label : α) (parent : Option δ),
    registry.size r < capacity →
      registry.read (registry.create key label parent r).2
        (registry.ref (registry.create key label parent r).1) =
          some ⟨label, parent.map registry.ref⟩
  read_kept : ∀ {r ref record} (key : Option κ) (label : α)
      (parent : Option δ), registry.size r < capacity →
    registry.read r ref = some record →
      registry.read (registry.create key label parent r).2 ref = some record
  find_create : ∀ {r} {key : Option κ} (label : α) (parent : Option δ)
      (other : κ), (∀ named, key = some named → registry.find r named = none) →
    registry.find (registry.create key label parent r).2 other =
      if key = some other then some (registry.create key label parent r).1
      else registry.find r other

/-- What has been read once stays readable, while there are references for all
definitions. -/
structure Grows (registry : LinkedRegistry ρ κ δ ι α) (capacity : Nat)
    (r next : ρ) : Prop where
  size : registry.size r ≤ registry.size next
  read : registry.size next ≤ capacity → ∀ {ref record},
    registry.read r ref = some record → registry.read next ref = some record

namespace Grows

theorem refl : registry.Grows capacity r r where
  size := le_rfl
  read _ _ _ stored := stored

theorem trans (first : registry.Grows capacity r next)
    (second : registry.Grows capacity next final) :
    registry.Grows capacity r final where
  size := first.size.trans second.size
  read fits _ _ stored :=
    second.read fits (first.read (second.size.trans fits) stored)

theorem leads (grows : registry.Grows capacity r next)
    (fits : registry.size next ≤ capacity) {ref : ι} {labels : List α}
    (leads : registry.Leads r ref labels) : registry.Leads next ref labels := by
  induction leads with
  | top stored => exact .top (grows.read fits stored)
  | linked stored _ induction => exact .linked (grows.read fits stored) induction

end Grows

namespace Lawful

variable [DecidableEq κ] (lawful : registry.Lawful capacity)
include lawful

theorem grows_create (key : Option κ) (label : α) (parent : Option δ) (r : ρ) :
    registry.Grows capacity r (registry.create key label parent r).2 where
  size := by
    rw [lawful.size_create]
    exact Nat.le_succ _
  read fits _ _ stored := by
    rw [lawful.size_create] at fits
    exact lawful.read_kept key label parent fits stored

theorem grows_emplace (key : κ) (label : α) (r : ρ) :
    registry.Grows capacity r (registry.emplace key label r).2 := by
  unfold emplace
  split
  · exact .refl
  · exact lawful.grows_create (some key) label none r

theorem leads_create (key : Option κ) (label : α)
    (fits : registry.size (registry.create key label none r).2 ≤ capacity) :
    registry.Leads (registry.create key label none r).2
      (registry.ref (registry.create key label none r).1) [label] := by
  rw [lawful.size_create] at fits
  exact .top (lawful.read_create key label none fits)

theorem leads_create_below (key : Option κ) (label : α) {above : δ}
    {labels : List α} (leads : registry.Leads r (registry.ref above) labels)
    (fits : registry.size (registry.create key label (some above) r).2 ≤
      capacity) :
    registry.Leads (registry.create key label (some above) r).2
      (registry.ref (registry.create key label (some above) r).1)
      (labels ++ [label]) := by
  have kept := (lawful.grows_create key label (some above) r).leads fits leads
  rw [lawful.size_create] at fits
  exact .linked (lawful.read_create key label (some above) fits) kept

end Lawful

/-- What is found under a key has no link and the label that the key stands
for. -/
def Sound (registry : LinkedRegistry ρ κ δ ι α) (labelOf : κ → α) (r : ρ) :
    Prop :=
  ∀ key definition, registry.find r key = some definition →
    registry.Leads r (registry.ref definition) [labelOf key]

section

variable [DecidableEq κ] {labelOf : κ → α}

theorem Sound.create (sound : registry.Sound labelOf r)
    (lawful : registry.Lawful capacity) (label : α) (parent : Option δ)
    (fits : registry.size (registry.create none label parent r).2 ≤ capacity) :
    registry.Sound labelOf (registry.create none label parent r).2 := by
  intro key definition found
  rw [lawful.find_create label parent key (by simp), if_neg (by simp)] at found
  exact (lawful.grows_create none label parent r).leads fits
    (sound key definition found)

theorem Sound.emplace (sound : registry.Sound labelOf r)
    (lawful : registry.Lawful capacity) (key : κ)
    (fits : registry.size (registry.emplace key (labelOf key) r).2 ≤ capacity) :
    registry.Sound labelOf (registry.emplace key (labelOf key) r).2 ∧
      registry.Leads (registry.emplace key (labelOf key) r).2
        (registry.ref (registry.emplace key (labelOf key) r).1)
        [labelOf key] := by
  unfold LinkedRegistry.emplace at fits ⊢
  cases known : registry.find r key with
  | some definition => exact ⟨sound, sound key definition known⟩
  | none =>
      simp only [known] at fits
      have leads := lawful.leads_create (some key) (labelOf key) fits
      refine ⟨?_, leads⟩
      intro other definition found
      rw [lawful.find_create (labelOf key) none other (by simpa using known)]
        at found
      split_ifs at found with same
      · cases found
        cases same
        exact leads
      · exact (lawful.grows_create (some key) (labelOf key) none r).leads fits
          (sound other definition found)

end

/-- A registry whose definitions are numbered as they are made. -/
structure Table (κ : Type v) (δ : Type w) (ι : Type x) (α : Type y)
    [DecidableEq κ] where
  records : List (LinkedRecord ι α)
  keyed : FiniteMap κ δ

/-- `made` is the definition with a number, and `number` that of a reference. -/
def ofTable (κ : Type v) (α : Type y) [DecidableEq κ] (made : Nat → δ)
    (ref : δ → ι) (number : ι → Nat) :
    LinkedRegistry (Table κ δ ι α) κ δ ι α where
  size table := table.records.length
  ref := ref
  find table := table.keyed.lookup
  create key label parent table :=
    let definition := made table.records.length
    (definition,
      { records := table.records ++ [⟨label, parent.map ref⟩]
        keyed := match key with
          | some key => table.keyed.insert key definition
          | none => table.keyed })
  read table reference := table.records[number reference]?

theorem ofTable_lawful [DecidableEq κ] {made : Nat → δ} {ref : δ → ι}
    {number : ι → Nat}
    (numbered : ∀ i < capacity, number (ref (made i)) = i) :
    (ofTable κ α made ref number).Lawful capacity where
  size_create key label parent table := List.length_append
  read_create {table} key label parent fits := by
    have same := numbered table.records.length fits
    simp only [ofTable, same]
    exact List.getElem?_concat_length
  read_kept {table reference record} key label parent _ stored := by
    simp only [ofTable] at stored ⊢
    rw [List.getElem?_append_left (List.getElem?_eq_some_iff.mp stored).1]
    exact stored
  find_create {table key} label parent other absent := by
    cases key with
    | none => simp [ofTable]
    | some key => simp [ofTable, FiniteMap.lookup_insert, eq_comm]

end LinkedRegistry

end Foundation
