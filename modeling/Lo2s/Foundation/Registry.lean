import Lo2s.Foundation.FiniteMap
import Lo2s.Foundation.KeyOrder

/-!
# Registries

A registry keeps what is defined under keys.  A definition is found again under
its key and under no other, and further definitions leave it alone.  Where the
keys are told apart by a comparator, `emplace` returns what is there under an
equivalent key.
-/

namespace Foundation

/-- How definitions of type `η` are found under keys, and made from data under
a key that has none. -/
structure Registry (ρ : Type u) (κ : Type v) (δ : Type w) (η : Type x) where
  find : ρ → κ → Option η
  emplace : ρ → κ → δ → η × ρ

namespace Registry

variable {ρ : Type u} {κ : Type v} {δ : Type w} {η : Type x} {ζ : Type y}

/-- What a registry is relied on for. -/
structure Lawful [DecidableEq κ] (registry : Registry ρ κ δ η) : Prop where
  find_emplace : ∀ {r key} (other : κ) (data : δ),
    registry.find r key = none →
      registry.find (registry.emplace r key data).2 other =
        if other = key then some (registry.emplace r key data).1
        else registry.find r other
  find_injective : ∀ {r key other handle},
    registry.find r key = some handle →
      registry.find r other = some handle → key = other

/-- Every definition of one state is found in another state too. -/
def Extends (registry : Registry ρ κ δ η) (earlier later : ρ) : Prop :=
  ∀ key handle, registry.find earlier key = some handle →
    registry.find later key = some handle

namespace Extends

variable {registry : Registry ρ κ δ η} {r next final : ρ}

theorem refl : registry.Extends r r := fun _ _ found => found

theorem trans (first : registry.Extends r next)
    (second : registry.Extends next final) : registry.Extends r final :=
  fun key handle found => second key handle (first key handle found)

end Extends

theorem Lawful.extends_emplace [DecidableEq κ] {registry : Registry ρ κ δ η}
    (lawful : registry.Lawful) {r : ρ} {key : κ} (data : δ)
    (absent : registry.find r key = none) :
    registry.Extends r (registry.emplace r key data).2 := by
  intro other handle found
  rw [lawful.find_emplace other data absent, if_neg]
  · exact found
  · rintro rfl
    rw [absent] at found
    cases found

/-- The registry whose definitions are pairs of a key and data. -/
def ofMap (κ : Type v) (δ : Type w) [DecidableEq κ] :
    Registry (FiniteMap κ δ) κ δ (κ × δ) where
  find map key := (map.lookup key).map fun data => (key, data)
  emplace map key data := ((key, data), map.insert key data)

theorem ofMap_lawful [DecidableEq κ] : (ofMap κ δ).Lawful where
  find_emplace {map key} other data _ := by
    simp only [ofMap, FiniteMap.lookup_insert]
    by_cases same : other = key
    · simp [same]
    · simp [same]
  find_injective {map key other handle} found otherFound := by
    obtain ⟨data, _, rfl⟩ := Option.map_eq_some_iff.mp found
    obtain ⟨_, _, same⟩ := Option.map_eq_some_iff.mp otherFound
    exact (Prod.mk.inj same).1.symm

open KeyOrder

section

variable [KeyOrder κ]

/-- What a registry is relied on for that asks for a key before it defines
anything, and tells keys apart by their comparator. -/
structure Interns (registry : Registry ρ κ δ η) : Prop where
  find_congr : ∀ {key other} (r : ρ), Equivalent key other →
    registry.find r key = registry.find r other
  emplace_of_find : ∀ {r key old} (data : δ), registry.find r key = some old →
    registry.emplace r key data = (old, r)
  find_emplace : ∀ {r key} (other : κ) (data : δ),
    registry.find r key = none →
      registry.find (registry.emplace r key data).2 other =
        if Equivalent other key then some (registry.emplace r key data).1
        else registry.find r other
  find_injective : ∀ {r key other handle},
    registry.find r key = some handle →
      registry.find r other = some handle → Equivalent key other

namespace Interns

variable {registry : Registry ρ κ δ η} {r : ρ} {key other : κ}
  {handle otherHandle : η}

theorem find_emplace_self (interns : registry.Interns) (r : ρ) (key : κ)
    (data : δ) :
    registry.find (registry.emplace r key data).2 key =
      some (registry.emplace r key data).1 := by
  cases found : registry.find r key with
  | some old =>
      rw [interns.emplace_of_find data found]
      exact found
  | none => rw [interns.find_emplace key data found, if_pos (.refl key)]

theorem extends_emplace (interns : registry.Interns) (r : ρ) (key : κ)
    (data : δ) : registry.Extends r (registry.emplace r key data).2 := by
  intro other old there
  cases found : registry.find r key with
  | some known =>
      rw [interns.emplace_of_find data found]
      exact there
  | none =>
      rw [interns.find_emplace other data found, if_neg]
      · exact there
      · intro same
        rw [interns.find_congr r same, found] at there
        cases there

theorem find_emplace_cases (interns : registry.Interns) {data : δ}
    (found : registry.find (registry.emplace r key data).2 other =
      some handle) :
    registry.find r other = some handle ∨
      registry.find r key = none ∧ Equivalent other key ∧
        handle = (registry.emplace r key data).1 := by
  cases known : registry.find r key with
  | some old =>
      rw [interns.emplace_of_find data known] at found
      exact .inl found
  | none =>
      rw [interns.find_emplace other data known] at found
      split_ifs at found with same
      · exact .inr ⟨rfl, same, (Option.some.inj found).symm⟩
      · exact .inl found

theorem find_eq_iff (interns : registry.Interns)
    (found : registry.find r key = some handle)
    (otherFound : registry.find r other = some otherHandle) :
    handle = otherHandle ↔ Equivalent key other := by
  constructor
  · rintro rfl
    exact interns.find_injective found otherFound
  · intro same
    rw [interns.find_congr r same, otherFound] at found
    exact (Option.some.inj found).symm

end Interns

/-- A registry whose definitions are taken for other ones. -/
def mapHandle (registry : Registry ρ κ δ η) (f : η → ζ) : Registry ρ κ δ ζ where
  find r key := (registry.find r key).map f
  emplace r key data :=
    (f (registry.emplace r key data).1, (registry.emplace r key data).2)

theorem Interns.mapHandle {registry : Registry ρ κ δ η} {f : η → ζ}
    (interns : registry.Interns) (injective : Function.Injective f) :
    (registry.mapHandle f).Interns where
  find_congr r same := congrArg (Option.map f) (interns.find_congr r same)
  emplace_of_find data found := by
    obtain ⟨old, there, rfl⟩ := Option.map_eq_some_iff.mp found
    simp only [Registry.mapHandle, interns.emplace_of_find data there]
  find_emplace other data absent := by
    have none := Option.map_eq_none_iff.mp absent
    simp only [Registry.mapHandle, interns.find_emplace other data none]
    split_ifs <;> rfl
  find_injective found otherFound := by
    obtain ⟨handle, there, rfl⟩ := Option.map_eq_some_iff.mp found
    obtain ⟨other, otherThere, same⟩ := Option.map_eq_some_iff.mp otherFound
    exact interns.find_injective there (injective same ▸ otherThere)

/-- The registry whose definitions are pairs of a key and data, in the order in
which they have been made. -/
def ofTable (κ : Type v) (δ : Type w) [KeyOrder κ] :
    Registry (List (κ × δ)) κ δ (κ × δ) where
  find table key := table.find? fun entry => Equivalent key entry.1
  emplace table key data :=
    match table.find? fun entry => Equivalent key entry.1 with
    | some old => (old, table)
    | none => ((key, data), table ++ [(key, data)])

theorem ofTable_interns : (ofTable κ δ).Interns where
  find_congr {key other} table same := by
    have alike : ∀ entry : κ × δ, Equivalent key entry.1 ↔
        Equivalent other entry.1 :=
      fun entry => ⟨same.symm.trans, same.trans⟩
    simp only [ofTable, alike]
  emplace_of_find data found := by
    simp only [ofTable] at found ⊢
    rw [found]
  find_emplace {table key} other data absent := by
    simp only [ofTable] at absent ⊢
    rw [absent]
    by_cases same : Equivalent other key
    · have alike : ∀ entry : κ × δ, Equivalent other entry.1 ↔
          Equivalent key entry.1 :=
        fun entry => ⟨same.symm.trans, same.trans⟩
      simp only [alike] at *
      simp [absent, same]
    · simp [same]
  find_injective found otherFound := by
    have first := List.find?_some found
    have second := List.find?_some otherFound
    exact (of_decide_eq_true first).trans (of_decide_eq_true second).symm

end

end Registry

/-- A registry of definitions that have members, which are added later. -/
structure GroupRegistry (ρ : Type u) (κ : Type v) (δ : Type w) (η : Type x)
    (μ : Type y) extends Registry ρ κ δ η where
  addMember : ρ → η → μ → ρ
  members : ρ → η → List μ

namespace GroupRegistry

open KeyOrder

variable {ρ : Type u} {κ : Type v} {δ : Type w} {η : Type x} {μ : Type y}
  [KeyOrder κ]

/-- What such a registry is relied on for: a new definition has no members, and
a member is added to one definition only, which is found where it was. -/
structure Gathers (registry : GroupRegistry ρ κ δ η μ) : Prop where
  interns : registry.Interns
  find_addMember : ∀ {r key group} (member : μ) (other : κ),
    registry.find r key = some group →
      registry.find (registry.addMember r group member) other =
        registry.find r other
  members_emplace : ∀ {r key} (data : δ), registry.find r key = none →
    registry.members (registry.emplace r key data).2
      (registry.emplace r key data).1 = []
  members_emplace_of_find : ∀ {r key other group} (data : δ),
    registry.find r key = none → registry.find r other = some group →
      registry.members (registry.emplace r key data).2 group =
        registry.members r group
  members_addMember : ∀ {r key group} (member : μ),
    registry.find r key = some group →
      registry.members (registry.addMember r group member) group =
        registry.members r group ++ [member]
  members_addMember_of_ne : ∀ {r key group other otherGroup} (member : μ),
    registry.find r key = some group →
      registry.find r other = some otherGroup → ¬ Equivalent other key →
        registry.members (registry.addMember r group member) otherGroup =
          registry.members r otherGroup

/-- The registry whose definitions are pairs of a key and data, each kept with
its members. -/
def ofTable (κ : Type v) (δ : Type w) (μ : Type y) [KeyOrder κ] :
    GroupRegistry (List ((κ × δ) × List μ)) κ δ (κ × δ) μ where
  find table key :=
    (table.find? fun entry => Equivalent key entry.1.1).map Prod.fst
  emplace table key data :=
    match table.find? fun entry => Equivalent key entry.1.1 with
    | some old => (old.1, table)
    | none => ((key, data), table ++ [((key, data), [])])
  addMember table group member := table.map fun entry =>
    if Equivalent group.1 entry.1.1 then (entry.1, entry.2 ++ [member])
    else entry
  members table group :=
    ((table.find? fun entry => Equivalent group.1 entry.1.1).map
      Prod.snd).getD []

section

variable {table : List ((κ × δ) × List μ)} {key other : κ} {group : κ × δ}

theorem find?_congr (table : List ((κ × δ) × List μ))
    (same : Equivalent key other) :
    table.find? (fun entry => Equivalent key entry.1.1) =
      table.find? fun entry => Equivalent other entry.1.1 := by
  have alike : ∀ entry : (κ × δ) × List μ,
      Equivalent key entry.1.1 ↔ Equivalent other entry.1.1 :=
    fun entry => ⟨same.symm.trans, same.trans⟩
  simp only [alike]

/-- The entry in which a definition is found, by its own key too. -/
theorem exists_entry
    (found : (ofTable κ δ μ).find table key = some group) :
    ∃ members, Equivalent key group.1 ∧
      table.find? (fun entry => Equivalent key entry.1.1) =
        some (group, members) ∧
      table.find? (fun entry => Equivalent group.1 entry.1.1) =
        some (group, members) := by
  obtain ⟨⟨definition, members⟩, there, rfl⟩ :=
    Option.map_eq_some_iff.mp found
  have same : Equivalent key definition.1 := by
    have holds := List.find?_some there
    exact of_decide_eq_true holds
  exact ⟨members, same, there, (find?_congr table same).symm.trans there⟩

theorem find?_addMember (table : List ((κ × δ) × List μ)) (group : κ × δ)
    (member : μ) (key : κ) :
    ((ofTable κ δ μ).addMember table group member).find?
        (fun entry => Equivalent key entry.1.1) =
      (table.find? fun entry => Equivalent key entry.1.1).map fun entry =>
        if Equivalent group.1 entry.1.1 then (entry.1, entry.2 ++ [member])
        else entry := by
  have kept : ∀ entry : (κ × δ) × List μ,
      (if Equivalent group.1 entry.1.1 then (entry.1, entry.2 ++ [member])
        else entry).1 = entry.1 := by
    intro entry
    split_ifs <;> rfl
  simp only [ofTable, List.find?_map, Function.comp_def, kept]

theorem ofTable_gathers : (ofTable κ δ μ).Gathers where
  interns :=
    { find_congr := fun table same =>
        congrArg (Option.map Prod.fst) (find?_congr table same)
      emplace_of_find := by
        intro table key old data found
        obtain ⟨members, _, there, _⟩ := exists_entry found
        simp only [ofTable, there]
      find_emplace := by
        intro table key other data absent
        simp only [ofTable, Option.map_eq_none_iff] at absent ⊢
        rw [absent]
        by_cases same : Equivalent other key
        · rw [find?_congr _ same]
          simp [absent, same]
        · simp [same]
      find_injective := by
        intro table key other group found otherFound
        obtain ⟨_, first, _⟩ := exists_entry found
        obtain ⟨_, second, _⟩ := exists_entry otherFound
        exact first.trans second.symm }
  find_addMember {table _ group} member other _ := by
    have found := find?_addMember table group member other
    change Option.map Prod.fst _ = Option.map Prod.fst _
    rw [found, Option.map_map]
    congr 1
    funext entry
    simp only [Function.comp_def]
    split_ifs <;> rfl
  members_emplace {table key} data absent := by
    simp only [ofTable, Option.map_eq_none_iff] at absent ⊢
    rw [absent]
    simp [absent]
  members_emplace_of_find {table key other group} data absent found := by
    obtain ⟨_, _, _, there⟩ := exists_entry found
    simp only [ofTable, Option.map_eq_none_iff] at absent ⊢
    rw [absent]
    simp [there]
  members_addMember {table key group} member found := by
    obtain ⟨members, _, _, there⟩ := exists_entry found
    have after := find?_addMember table group member group.1
    change ((List.find? _ _).map Prod.snd).getD [] =
      ((List.find? _ _).map Prod.snd).getD [] ++ [member]
    rw [after, there]
    simp
  members_addMember_of_ne {table key group other otherGroup} member found
      otherFound apart := by
    obtain ⟨_, same, _, _⟩ := exists_entry found
    obtain ⟨members, otherSame, _, there⟩ := exists_entry otherFound
    have unlike : ¬ Equivalent group.1 otherGroup.1 := by
      intro alike
      exact apart (otherSame.trans (alike.symm.trans same.symm))
    have after := find?_addMember table group member otherGroup.1
    change ((List.find? _ _).map Prod.snd).getD [] =
      ((List.find? _ _).map Prod.snd).getD []
    rw [after, there]
    simp [unlike]

end

end GroupRegistry

end Foundation
