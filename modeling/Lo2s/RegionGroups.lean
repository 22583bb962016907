import Lo2s.InternLineInfo

/-!
# The groups of regions

`intern_region` keeps a group of regions for each object.  A call whose object
has no group yet makes the group, and only later ones add their regions to it.
-/

namespace Lo2s

open Foundation

namespace LineInfoRegistry

variable {ρ η σ ζ γ θ : Type} (registry : LineInfoRegistry ρ η σ ζ γ θ)

/-- A sequence of calls of `intern_region`: what they return, and what is defined
after them. -/
def internRegions : List LineInfo → LineInfoDefinitions ρ σ γ →
    List (LineInfo × η) × LineInfoDefinitions ρ σ γ
  | [], d => ([], d)
  | info :: infos, d =>
      let (region, d) := registry.internRegion info d
      let (rest, d) := internRegions infos d
      ((info, region) :: rest, d)

/-- The calls for an object behind the first one. -/
def laterIn (dso : String) (infos : List LineInfo) : List LineInfo :=
  (infos.filter (·.dso = dso)).tail

theorem mem_laterIn_concat {dso : String} {infos : List LineInfo}
    {info other : LineInfo} :
    other ∈ laterIn dso (infos ++ [info]) ↔
      other ∈ laterIn dso infos ∨
        other = info ∧ info.dso = dso ∧ infos.filter (·.dso = dso) ≠ [] := by
  unfold laterIn
  rw [List.filter_append]
  by_cases same : info.dso = dso
  · rw [List.filter_singleton]
    simp only [same, decide_true, true_and]
    cases infos.filter (·.dso = dso) with
    | nil => simp
    | cons first again => simp [or_comm]
  · simp [same]

/-- What is defined after calls for these `LineInfo`s. -/
structure GroupedAfter (infos : List LineInfo)
    (d : LineInfoDefinitions ρ σ γ) : Prop where
  known : ∀ info ∈ infos, ∃ region,
    registry.regions.find d.regions info = some region
  absent : ∀ dso, registry.regionsGroups.find d.regionsGroups dso = none ↔
    infos.filter (·.dso = dso) = []
  members : ∀ dso group,
    registry.regionsGroups.find d.regionsGroups dso = some group →
      ∀ region, region ∈ registry.regionsGroups.members d.regionsGroups group ↔
        ∃ info ∈ laterIn dso infos,
          registry.regions.find d.regions info = some region

theorem mem_of_mem_laterIn {dso : String} {infos : List LineInfo}
    {info : LineInfo} (member : info ∈ laterIn dso infos) :
    info ∈ infos ∧ info.dso = dso := by
  have within := List.mem_filter.mp (List.mem_of_mem_tail member)
  exact ⟨within.1, of_decide_eq_true within.2⟩

section

variable {registry} {infos : List LineInfo} {d : LineInfoDefinitions ρ σ γ}

theorem groupedAfter_nil
    (fresh : ∀ dso, registry.regionsGroups.find d.regionsGroups dso = none) :
    registry.GroupedAfter [] d where
  known _ none := absurd none List.not_mem_nil
  absent dso := iff_of_true (fresh dso) rfl
  members dso group there := by
    rw [fresh dso] at there
    cases there

theorem find_internRegion_self (lawful : registry.Lawful) (info : LineInfo)
    (d : LineInfoDefinitions ρ σ γ) :
    registry.regions.find (registry.internRegion info d).2.regions info =
      some (registry.internRegion info d).1 :=
  lawful.regions.find_emplace_self d.regions info info.region

theorem extends_internRegion (lawful : registry.Lawful) (info : LineInfo)
    (d : LineInfoDefinitions ρ σ γ) :
    registry.regions.Extends d.regions
      (registry.internRegion info d).2.regions :=
  lawful.regions.extends_emplace d.regions info info.region

theorem GroupedAfter.find_internRegion (lawful : registry.Lawful)
    (grouped : registry.GroupedAfter infos d) (info : LineInfo)
    {other : LineInfo} (member : other ∈ infos) {region : η} :
    registry.regions.find (registry.internRegion info d).2.regions other =
        some region ↔
      registry.regions.find d.regions other = some region := by
  obtain ⟨old, known⟩ := grouped.known other member
  have kept := extends_internRegion lawful info d other old known
  rw [kept, known]

/-- The group of the object, if it is there, and the groups of the others stay,
and the object has a group in any case. -/
theorem find_group_internRegion (lawful : registry.Lawful) (info : LineInfo)
    (dso : String) (d : LineInfoDefinitions ρ σ γ) :
    registry.regionsGroups.find
        (registry.internRegion info d).2.regionsGroups dso =
      match registry.regionsGroups.find d.regionsGroups info.dso with
      | some _ => registry.regionsGroups.find d.regionsGroups dso
      | none =>
          if dso = info.dso then
            some (registry.regionsGroups.emplace d.regionsGroups info.dso
              info.dso).1
          else registry.regionsGroups.find d.regionsGroups dso := by
  simp only [internRegion]
  cases found : registry.regionsGroups.find d.regionsGroups info.dso with
  | some group => exact lawful.regionsGroups.find_addMember _ dso found
  | none =>
      rw [lawful.regionsGroups.interns.find_emplace dso _ found]
      simp only [KeyOrder.equivalent_string]

theorem GroupedAfter.exists_laterIn_iff (lawful : registry.Lawful)
    (grouped : registry.GroupedAfter infos d) (info : LineInfo) (dso : String)
    (region : η) :
    (∃ other ∈ laterIn dso infos,
        registry.regions.find (registry.internRegion info d).2.regions other =
          some region) ↔
      ∃ other ∈ laterIn dso infos,
        registry.regions.find d.regions other = some region := by
  apply exists_congr
  intro other
  apply and_congr_right
  intro member
  exact grouped.find_internRegion lawful info (mem_of_mem_laterIn member).1

theorem GroupedAfter.members_internRegion (lawful : registry.Lawful)
    (grouped : registry.GroupedAfter infos d) (info : LineInfo) {dso : String}
    {group : θ}
    (there : registry.regionsGroups.find
      (registry.internRegion info d).2.regionsGroups dso = some group)
    (region : η) :
    region ∈ registry.regionsGroups.members
        (registry.internRegion info d).2.regionsGroups group ↔
      ∃ other ∈ laterIn dso (infos ++ [info]),
        registry.regions.find (registry.internRegion info d).2.regions other =
          some region := by
  have self := find_internRegion_self lawful info d
  rw [find_group_internRegion lawful] at there
  simp only [mem_laterIn_concat, or_and_right, exists_or]
  rw [grouped.exists_laterIn_iff lawful]
  cases old : registry.regionsGroups.find d.regionsGroups info.dso with
  | some own =>
      -- The region becomes a member of the group of the object.
      simp only [old] at there
      have added : (registry.internRegion info d).2.regionsGroups =
          registry.regionsGroups.addMember d.regionsGroups own
            (registry.internRegion info d).1 := by
        simp only [internRegion, old]
      rw [added]
      by_cases same : dso = info.dso
      · subst same
        cases old.symm.trans there
        have again : infos.filter (·.dso = info.dso) ≠ [] := by
          rw [ne_eq, ← grouped.absent, old]
          exact Option.some_ne_none group
        rw [lawful.regionsGroups.members_addMember _ old, List.mem_append,
          grouped.members info.dso group old, List.mem_singleton]
        apply or_congr_right
        constructor
        · rintro rfl
          exact ⟨info, ⟨rfl, rfl, again⟩, self⟩
        · rintro ⟨other, ⟨rfl, _, _⟩, found⟩
          rw [self] at found
          exact (Option.some.inj found).symm
      · have apart : ¬ KeyOrder.Equivalent dso info.dso :=
          mt KeyOrder.equivalent_string.mp same
        rw [lawful.regionsGroups.members_addMember_of_ne _ old there apart,
          grouped.members dso group there]
        simp [Ne.symm same]
  | none =>
      simp only [old] at there
      have made : (registry.internRegion info d).2.regionsGroups =
          (registry.regionsGroups.emplace d.regionsGroups info.dso
            info.dso).2 := by
        simp only [internRegion, old]
      rw [made]
      by_cases same : dso = info.dso
      · subst same
        rw [if_pos rfl, Option.some.injEq] at there
        subst there
        have first := (grouped.absent info.dso).mp old
        rw [lawful.regionsGroups.members_emplace _ old]
        simp [laterIn, first]
      · rw [if_neg same] at there
        rw [lawful.regionsGroups.members_emplace_of_find _ old there,
          grouped.members dso group there]
        simp [Ne.symm same]

/-- A call adds its region to the group of its object, unless it makes the
group. -/
theorem GroupedAfter.internRegion (lawful : registry.Lawful)
    (grouped : registry.GroupedAfter infos d) (info : LineInfo) :
    registry.GroupedAfter (infos ++ [info])
      (registry.internRegion info d).2 := by
  constructor
  case known =>
    intro other member
    rcases List.mem_append.mp member with earlier | last
    · obtain ⟨region, known⟩ := grouped.known other earlier
      exact ⟨region, extends_internRegion lawful info d other region known⟩
    · rw [List.mem_singleton.mp last]
      exact ⟨_, find_internRegion_self lawful info d⟩
  case absent =>
    intro dso
    rw [find_group_internRegion lawful, List.filter_append,
      List.append_eq_nil_iff, ← grouped.absent]
    by_cases same : dso = info.dso
    · subst same
      cases old : registry.regionsGroups.find d.regionsGroups info.dso with
      | some own => simp
      | none => simp
    · cases registry.regionsGroups.find d.regionsGroups info.dso with
      | some own => simp [Ne.symm same]
      | none => simp [same, Ne.symm same]
  case members =>
    intro dso group there region
    exact grouped.members_internRegion lawful info there region

theorem GroupedAfter.internRegions (lawful : registry.Lawful)
    {seen : List LineInfo} (grouped : registry.GroupedAfter seen d)
    (infos : List LineInfo) :
    registry.GroupedAfter (seen ++ infos) (registry.internRegions infos d).2 ∧
      registry.regions.Extends d.regions
        (registry.internRegions infos d).2.regions ∧
      (registry.internRegions infos d).1.map Prod.fst = infos ∧
      ∀ call ∈ (registry.internRegions infos d).1,
        registry.regions.find (registry.internRegions infos d).2.regions
          call.1 = some call.2 := by
  induction infos generalizing seen d with
  | nil =>
      rw [List.append_nil]
      exact ⟨grouped, .refl, rfl, fun _ none => absurd none List.not_mem_nil⟩
  | cons info infos ih =>
      obtain ⟨after, kept, calls, found⟩ := ih (grouped.internRegion lawful info)
      rw [List.append_assoc, List.singleton_append] at after
      refine ⟨after, ?_, congrArg (info :: ·) calls, ?_⟩
      · exact (extends_internRegion lawful info d).trans kept
      · intro call member
        rcases List.mem_cons.mp member with rfl | later
        · exact kept info _ (find_internRegion_self lawful info d)
        · exact found call later

end

/-- Each returned region is in the group of its object. -/
def RegionsGrouped (d : LineInfoDefinitions ρ σ γ) (infos : List LineInfo) :
    Prop :=
  ∀ call ∈ (registry.internRegions infos d).1, ∃ group,
    registry.regionsGroups.find
        (registry.internRegions infos d).2.regionsGroups call.1.dso =
      some group ∧
    call.2 ∈ registry.regionsGroups.members
      (registry.internRegions infos d).2.regionsGroups group

variable {registry}

/-- The region of a call is in its group exactly if the call comes again behind
the first one for its object. -/
theorem GroupedAfter.mem_group_iff (lawful : registry.Lawful)
    {infos : List LineInfo} {d : LineInfoDefinitions ρ σ γ}
    (grouped : registry.GroupedAfter infos d) {info : LineInfo}
    (member : info ∈ infos) {region : η}
    (found : registry.regions.find d.regions info = some region) :
    (∃ group, registry.regionsGroups.find d.regionsGroups info.dso =
        some group ∧
      region ∈ registry.regionsGroups.members d.regionsGroups group) ↔
      info ∈ laterIn info.dso infos := by
  have nonempty : infos.filter (·.dso = info.dso) ≠ [] :=
    List.ne_nil_of_mem (List.mem_filter.mpr ⟨member, decide_eq_true rfl⟩)
  obtain ⟨group, there⟩ := Option.ne_none_iff_exists'.mp
    (mt (grouped.absent info.dso).mp nonempty)
  have regions := grouped.members info.dso group there region
  constructor
  · rintro ⟨same, thereToo, inside⟩
    rw [there, Option.some.injEq] at thereToo
    subst thereToo
    obtain ⟨other, later, otherFound⟩ := regions.mp inside
    have equivalent := (lawful.regions.find_eq_iff found otherFound).mp rfl
    have equal : info = other := LineInfo.eq_of_place
      (LineInfo.equivalent_iff.mp equivalent) (mem_of_mem_laterIn later).2.symm
    exact equal.symm ▸ later
  · intro later
    exact ⟨group, there, regions.mpr ⟨info, later, found⟩⟩

/-- Every call comes again behind the first one for its object if those first
ones do. -/
theorem forall_mem_laterIn_iff {infos : List LineInfo} :
    (∀ info ∈ infos, info ∈ laterIn info.dso infos) ↔
      ∀ earlier info later, infos = earlier ++ info :: later →
        (∀ other ∈ earlier, other.dso ≠ info.dso) → info ∈ later := by
  constructor
  · rintro again earlier info later rfl first
    have member := again info (List.mem_append_right _ List.mem_cons_self)
    have none : earlier.filter (·.dso = info.dso) = [] := by
      rw [List.filter_eq_nil_iff]
      intro other within
      simpa using first other within
    have group : (earlier ++ info :: later).filter (·.dso = info.dso) =
        info :: later.filter (·.dso = info.dso) := by
      rw [List.filter_append, none, List.nil_append]
      apply List.filter_cons_of_pos
      exact decide_eq_true rfl
    rw [laterIn, group, List.tail_cons] at member
    exact List.mem_of_mem_filter member
  · intro again info member
    have inside : info ∈ infos.filter (·.dso = info.dso) :=
      List.mem_filter.mpr ⟨member, decide_eq_true rfl⟩
    cases group : infos.filter (·.dso = info.dso) with
    | nil =>
        rw [group] at inside
        cases inside
    | cons first rest =>
        rw [laterIn, group, List.tail_cons]
        rw [group] at inside
        rcases List.mem_cons.mp inside with rfl | later
        · obtain ⟨earlier, behind, split, others, _, kept⟩ :=
            List.filter_eq_cons_iff.mp group
          rw [← kept]
          have comesAgain := again earlier info behind split fun other within =>
            by simpa using others other within
          exact List.mem_filter.mpr ⟨comesAgain, decide_eq_true rfl⟩
        · exact later

/-- All regions are in the groups of their objects exactly if each `LineInfo`
that is the first one for its object is asked for again. -/
theorem regionsGrouped_iff (lawful : registry.Lawful)
    (d : LineInfoDefinitions ρ σ γ)
    (fresh : ∀ dso, registry.regionsGroups.find d.regionsGroups dso = none)
    (infos : List LineInfo) :
    registry.RegionsGrouped d infos ↔
      ∀ earlier info later, infos = earlier ++ info :: later →
        (∀ other ∈ earlier, other.dso ≠ info.dso) → info ∈ later := by
  obtain ⟨grouped, -, calls, found⟩ :=
    (groupedAfter_nil fresh).internRegions lawful infos
  rw [List.nil_append] at grouped
  rw [← forall_mem_laterIn_iff]
  have inside : ∀ call ∈ (registry.internRegions infos d).1, call.1 ∈ infos := by
    intro call member
    rw [← calls]
    exact List.mem_map_of_mem member
  constructor
  · intro complete info member
    rw [← calls] at member
    obtain ⟨call, called, rfl⟩ := List.mem_map.mp member
    exact (grouped.mem_group_iff lawful (inside call called)
      (found call called)).mp (complete call called)
  · intro again call called
    exact (grouped.mem_group_iff lawful (inside call called)
      (found call called)).mpr (again call.1 (inside call called))

/-- Two functions of one program, the first of them twice. -/
theorem regionsGrouped_iff_twice :
    ofTables.RegionsGrouped ⟨[], [], []⟩
      [.forFunction (some "a.c") (some "main") 3 "/usr/bin/a.out",
       .forFunction (some "a.c") (some "init") 9 "/usr/bin/a.out",
       .forFunction (some "a.c") (some "main") 3 "/usr/bin/a.out"] := by
  apply (regionsGrouped_iff ofTables_lawful _ (fun _ => rfl) _).mpr
  rw [← forall_mem_laterIn_iff]
  decide +kernel

/-- The first function of a program is not in its group. -/
theorem first_region_not_grouped :
    ¬ ofTables.RegionsGrouped ⟨[], [], []⟩
      [.forFunction none (some "main") 0 "/usr/bin/a.out"] := by
  intro complete
  obtain ⟨members, there, inside⟩ := complete _ List.mem_cons_self
  cases there
  exact absurd inside (by decide +kernel)

end LineInfoRegistry

end Lo2s
