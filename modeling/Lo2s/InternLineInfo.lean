import Lo2s.Foundation.LexOrder
import Lo2s.Foundation.Registry
import Lo2s.LineInfo

/-!
# Interned source locations

Regions and source code locations are registered under their `LineInfo`.  Both
of its operators compare the object of the left operand with itself, so a
`LineInfo` is identified by its function and the place of its source alone.

The registry itself comes from the trace library, and is a parameter.
-/

namespace Lo2s

open Foundation

instance : KeyOrder UInt32 :=
  .ofRank UInt32.toNat (fun left right => left < right) fun _ _ => by
    rw [decide_eq_true_iff]
    exact UInt32.lt_iff_toNat_lt

namespace LineInfo

/-- `operator<` of the tuples that `std::tie` makes. -/
def less (info other : LineInfo) : Bool :=
  KeyOrder.before (info.file, info.function, info.line, info.dso)
    (other.file, other.function, other.line, info.dso)

/-- `operator==`. -/
def eq (info other : LineInfo) : Bool :=
  (info.file, info.function, info.line, info.dso) =
    (other.file, other.function, other.line, info.dso)

/-- What the operators look at. -/
def place (info : LineInfo) : String × String × UInt32 :=
  (info.file, info.function, info.line)

/-- The object precedes itself neither way, so the lines decide. -/
theorem less_eq_before (info other : LineInfo) :
    less info other = KeyOrder.before info.place other.place := by
  apply KeyOrder.pairBefore_congr
  apply KeyOrder.pairBefore_congr
  change KeyOrder.pairBefore (info.line, info.dso) (other.line, info.dso) = _
  rw [KeyOrder.pairBefore, KeyOrder.before_irrefl]
  cases KeyOrder.before info.line other.line
  · simp
  · simp

instance : KeyOrder LineInfo :=
  @KeyOrder.copy _ (KeyOrder.comap place) less less_eq_before

theorem equivalent_line {left right : UInt32} :
    KeyOrder.Equivalent left right ↔ left = right := by
  change decide (left < right) = false ∧ decide (right < left) = false ↔ _
  rw [decide_eq_false_iff_not, decide_eq_false_iff_not, UInt32.not_lt,
    UInt32.not_lt]
  constructor
  · rintro ⟨above, below⟩
    exact UInt32.le_antisymm below above
  · rintro rfl
    exact ⟨UInt32.le_refl left, UInt32.le_refl left⟩

theorem equivalent_place {left right : String × String × UInt32} :
    KeyOrder.Equivalent left right ↔ left = right := by
  rw [KeyOrder.equivalent_pair, KeyOrder.equivalent_pair,
    KeyOrder.equivalent_string, KeyOrder.equivalent_string, equivalent_line,
    Prod.ext_iff, Prod.ext_iff]

theorem equivalent_iff {info other : LineInfo} :
    KeyOrder.Equivalent info other ↔ info.place = other.place := by
  rw [← equivalent_place]
  change less info other = false ∧ less other info = false ↔ _
  rw [less_eq_before, less_eq_before]
  exact Iff.rfl

theorem eq_iff {info other : LineInfo} :
    info.eq other = true ↔ info.place = other.place := by
  rw [eq, decide_eq_true_iff]
  simp only [place, Prod.mk.injEq, and_true]

theorem eq_of_place {info other : LineInfo} (places : info.place = other.place)
    (objects : info.dso = other.dso) : info = other := by
  obtain ⟨file, function, line, dso⟩ := info
  obtain ⟨otherFile, otherFunction, otherLine, otherDso⟩ := other
  cases objects
  cases places
  rfl

end LineInfo

/-- What `intern_region` makes an `otf2::definition::region` with. -/
structure RegionData where
  name : String
  canonicalName : String
  description : String
  sourceFile : String
  beginLine : UInt32
  endLine : UInt32
  deriving DecidableEq, Repr

/-- What `intern_scl` makes an `otf2::definition::source_code_location` with. -/
structure SclData where
  file : String
  line : UInt32
  deriving DecidableEq, Repr

def LineInfo.region (info : LineInfo) : RegionData :=
  ⟨info.function, info.function, info.function, info.file, info.line, 0⟩

def LineInfo.scl (info : LineInfo) : SclData := ⟨info.file, info.line⟩

/-- `registry_`, as far as source locations are concerned: `ByLineInfo` for
regions and for locations, and `ByString` for the groups of regions. -/
structure LineInfoRegistry (ρ η σ ζ γ θ : Type) where
  regions : Registry ρ LineInfo RegionData η
  scls : Registry σ LineInfo SclData ζ
  regionsGroups : GroupRegistry γ String String θ η

/-- What has been defined in it. -/
structure LineInfoDefinitions (ρ σ γ : Type) where
  regions : ρ
  scls : σ
  regionsGroups : γ

/-- A call of `intern_region` or of `intern_scl`. -/
structure InternCall where
  isRegion : Bool
  info : LineInfo
  deriving DecidableEq

/-- What such a call returns. -/
inductive Interned (η ζ : Type) where
  | region (region : η)
  | scl (scl : ζ)
  deriving DecidableEq, Repr

namespace LineInfoRegistry

variable {ρ η σ ζ γ θ : Type} (registry : LineInfoRegistry ρ η σ ζ γ θ)

/-- The registry identifies keys by their operator. -/
structure Lawful : Prop where
  regions : registry.regions.Interns
  scls : registry.scls.Interns
  regionsGroups : registry.regionsGroups.Gathers

def internScl (info : LineInfo) (d : LineInfoDefinitions ρ σ γ) :
    ζ × LineInfoDefinitions ρ σ γ :=
  let (scl, scls) := registry.scls.emplace d.scls info info.scl
  (scl, { d with scls := scls })

/-- `intern_region`; a group that is new has no members. -/
def internRegion (info : LineInfo) (d : LineInfoDefinitions ρ σ γ) :
    η × LineInfoDefinitions ρ σ γ :=
  let (region, regions) := registry.regions.emplace d.regions info info.region
  let regionsGroups :=
    match registry.regionsGroups.find d.regionsGroups info.dso with
    | some group =>
        registry.regionsGroups.addMember d.regionsGroups group region
    | none =>
        (registry.regionsGroups.emplace d.regionsGroups info.dso info.dso).2
  (region, { d with
    regions := regions
    regionsGroups := regionsGroups })

def intern (call : InternCall) (d : LineInfoDefinitions ρ σ γ) :
    Interned η ζ × LineInfoDefinitions ρ σ γ :=
  if call.isRegion then
    let (region, d) := registry.internRegion call.info d
    (.region region, d)
  else
    let (scl, d) := registry.internScl call.info d
    (.scl scl, d)

/-- A sequence of calls, with what each of them returns. -/
def internAll : List InternCall → LineInfoDefinitions ρ σ γ →
    List (InternCall × Interned η ζ)
  | [], _ => []
  | call :: calls, d =>
      (call, (registry.intern call d).1) ::
        internAll calls (registry.intern call d).2

/-- What a call returns if its definition is there. -/
def known (call : InternCall) (d : LineInfoDefinitions ρ σ γ) :
    Option (Interned η ζ) :=
  if call.isRegion then (registry.regions.find d.regions call.info).map .region
  else (registry.scls.find d.scls call.info).map .scl

/-- What is defined after a sequence of calls. -/
def afterAll (calls : List InternCall) (d : LineInfoDefinitions ρ σ γ) :
    LineInfoDefinitions ρ σ γ :=
  calls.foldl (fun d call => (registry.intern call d).2) d

section

variable {registry} {d : LineInfoDefinitions ρ σ γ} {call other : InternCall}
  {calls : List InternCall} {definition : Interned η ζ}

theorem known_intern (lawful : registry.Lawful) (call : InternCall)
    (d : LineInfoDefinitions ρ σ γ) :
    registry.known call (registry.intern call d).2 =
      some (registry.intern call d).1 := by
  obtain ⟨isRegion, info⟩ := call
  cases isRegion with
  | true =>
      exact congrArg (Option.map Interned.region)
        (lawful.regions.find_emplace_self d.regions info info.region)
  | false =>
      exact congrArg (Option.map Interned.scl)
        (lawful.scls.find_emplace_self d.scls info info.scl)

theorem known_of_known (lawful : registry.Lawful)
    (found : registry.known other d = some definition) (call : InternCall) :
    registry.known other (registry.intern call d).2 = some definition := by
  obtain ⟨isRegion, info⟩ := call
  obtain ⟨otherIsRegion, otherInfo⟩ := other
  cases isRegion with
  | true =>
      cases otherIsRegion with
      | true =>
          obtain ⟨region, there, rfl⟩ := Option.map_eq_some_iff.mp found
          exact congrArg (Option.map Interned.region)
            (lawful.regions.extends_emplace d.regions info info.region
              otherInfo region there)
      | false => exact found
  | false =>
      cases otherIsRegion with
      | true => exact found
      | false =>
          obtain ⟨scl, there, rfl⟩ := Option.map_eq_some_iff.mp found
          exact congrArg (Option.map Interned.scl)
            (lawful.scls.extends_emplace d.scls info info.scl otherInfo scl
              there)

/-- Calls of one kind know the same definition exactly if their `LineInfo`s are
equivalent. -/
theorem known_eq_iff (lawful : registry.Lawful)
    (sameKind : call.isRegion = other.isRegion) {left right : Interned η ζ}
    (found : registry.known call d = some left)
    (otherFound : registry.known other d = some right) :
    left = right ↔ KeyOrder.Equivalent call.info other.info := by
  obtain ⟨isRegion, info⟩ := call
  obtain ⟨otherIsRegion, otherInfo⟩ := other
  cases sameKind
  cases isRegion with
  | true =>
      obtain ⟨region, there, rfl⟩ := Option.map_eq_some_iff.mp found
      obtain ⟨otherRegion, otherThere, rfl⟩ :=
        Option.map_eq_some_iff.mp otherFound
      rw [Interned.region.injEq]
      exact lawful.regions.find_eq_iff there otherThere
  | false =>
      obtain ⟨scl, there, rfl⟩ := Option.map_eq_some_iff.mp found
      obtain ⟨otherScl, otherThere, rfl⟩ := Option.map_eq_some_iff.mp otherFound
      rw [Interned.scl.injEq]
      exact lawful.scls.find_eq_iff there otherThere

theorem known_afterAll (lawful : registry.Lawful)
    (found : registry.known other d = some definition)
    (calls : List InternCall) :
    registry.known other (registry.afterAll calls d) = some definition := by
  induction calls generalizing d with
  | nil => exact found
  | cons call calls ih =>
      apply ih
      exact known_of_known lawful found call

theorem known_of_mem_internAll (lawful : registry.Lawful)
    (member : (call, definition) ∈ registry.internAll calls d) :
    registry.known call (registry.afterAll calls d) = some definition := by
  induction calls generalizing d with
  | nil => cases member
  | cons first calls ih =>
      rcases List.mem_cons.mp member with here | later
      · cases here
        exact known_afterAll lawful (known_intern lawful call d) calls
      · apply ih
        exact later

theorem call_of_mem_internAll
    (member : (call, definition) ∈ registry.internAll calls d) :
    call ∈ calls := by
  induction calls generalizing d with
  | nil => cases member
  | cons first calls ih =>
      rcases List.mem_cons.mp member with here | later
      · cases here
        exact List.mem_cons_self
      · exact List.mem_cons_of_mem first (ih later)

end

end LineInfoRegistry

section

variable {ρ η σ ζ γ θ : Type}

/-- Source locations are told apart by all of their fields. -/
structure FaithfullyInterned (registry : LineInfoRegistry ρ η σ ζ γ θ)
    (d : LineInfoDefinitions ρ σ γ) (calls : List InternCall) : Prop where
  irrefl : ∀ call ∈ calls, call.info.less call.info = false
  trans : ∀ first ∈ calls, ∀ second ∈ calls, ∀ third ∈ calls,
    first.info.less second.info = true → second.info.less third.info = true →
      first.info.less third.info = true
  incomparable_trans : ∀ first ∈ calls, ∀ second ∈ calls, ∀ third ∈ calls,
    KeyOrder.Equivalent first.info second.info →
      KeyOrder.Equivalent second.info third.info →
        KeyOrder.Equivalent first.info third.info
  equivalent_iff : ∀ call ∈ calls, ∀ other ∈ calls,
    KeyOrder.Equivalent call.info other.info ↔ call.info = other.info
  eq_iff : ∀ call ∈ calls, ∀ other ∈ calls,
    call.info.eq other.info = true ↔ call.info = other.info
  definitions : ∀ call definition, ∀ other otherDefinition,
    (call, definition) ∈ registry.internAll calls d →
    (other, otherDefinition) ∈ registry.internAll calls d →
    call.isRegion = other.isRegion →
      (definition = otherDefinition ↔ call.info = other.info)

/-- This is so exactly if no two of the source locations have the same place in
different objects. -/
theorem faithfullyInterned_iff {registry : LineInfoRegistry ρ η σ ζ γ θ}
    (lawful : registry.Lawful) (d : LineInfoDefinitions ρ σ γ)
    (calls : List InternCall) :
    FaithfullyInterned registry d calls ↔
      ∀ call ∈ calls, ∀ other ∈ calls, call.info.file = other.info.file →
        call.info.function = other.info.function →
          call.info.line = other.info.line → call.info.dso = other.info.dso := by
  constructor
  · intro faithful call member other otherMember files functions lines
    have places : call.info.place = other.info.place := by
      rw [LineInfo.place, LineInfo.place, files, functions, lines]
    have equivalent := LineInfo.equivalent_iff.mpr places
    rw [(faithful.equivalent_iff call member other otherMember).mp equivalent]
  · intro objects
    have same_iff : ∀ call ∈ calls, ∀ other ∈ calls,
        call.info.place = other.info.place ↔ call.info = other.info := by
      intro call member other otherMember
      constructor
      · intro places
        have files := congrArg (·.1) places
        have functions := congrArg (·.2.1) places
        have lines := congrArg (·.2.2) places
        exact LineInfo.eq_of_place places
          (objects call member other otherMember files functions lines)
      · intro infos
        rw [infos]
    constructor
    · intro call _
      exact KeyOrder.before_irrefl call.info
    · intro first _ second _ third _ less next
      exact @KeyOrder.before_trans LineInfo _ first.info second.info third.info
        less next
    · intro first _ second _ third _ here there
      exact here.trans there
    · intro call member other otherMember
      rw [LineInfo.equivalent_iff, same_iff call member other otherMember]
    · intro call member other otherMember
      rw [LineInfo.eq_iff, same_iff call member other otherMember]
    · intro call definition other otherDefinition member otherMember sameKind
      have known := LineInfoRegistry.known_of_mem_internAll lawful member
      have otherKnown :=
        LineInfoRegistry.known_of_mem_internAll lawful otherMember
      rw [LineInfoRegistry.known_eq_iff lawful sameKind known otherKnown,
        LineInfo.equivalent_iff]
      apply same_iff
      · exact LineInfoRegistry.call_of_mem_internAll member
      · exact LineInfoRegistry.call_of_mem_internAll otherMember

end

namespace LineInfoRegistry

/-- The registry that keeps everything in tables. -/
def ofTables :
    LineInfoRegistry (List (LineInfo × RegionData)) (LineInfo × RegionData)
      (List (LineInfo × SclData)) (LineInfo × SclData)
      (List ((String × String) × List (LineInfo × RegionData)))
      (String × String) :=
  ⟨.ofTable LineInfo RegionData, .ofTable LineInfo SclData,
    .ofTable String String (LineInfo × RegionData)⟩

theorem ofTables_lawful : ofTables.Lawful :=
  ⟨Registry.ofTable_interns, Registry.ofTable_interns,
    GroupRegistry.ofTable_gathers⟩

end LineInfoRegistry

/-- Two functions of one file, the first of them twice. -/
theorem faithfullyInterned_iff_twoFunctions :
    FaithfullyInterned .ofTables ⟨[], [], []⟩
      [⟨true, .forFunction (some "a.c") (some "main") 3 "/usr/bin/a.out"⟩,
       ⟨false, .forFunction (some "a.c") (some "main") 3 "/usr/bin/a.out"⟩,
       ⟨true, .forFunction (some "a.c") (some "init") 9 "/usr/bin/a.out"⟩,
       ⟨true, .forFunction (some "a.c") (some "main") 3 "/usr/bin/a.out"⟩] :=
  (faithfullyInterned_iff LineInfoRegistry.ofTables_lawful _ _).mpr
    (by decide +kernel)

/-- The functions `main` of two programs without debug information share one
region. -/
theorem main_not_faithfullyInterned :
    ¬ FaithfullyInterned .ofTables ⟨[], [], []⟩
      [⟨true, .forFunction none (some "main") 0 "/usr/bin/a.out"⟩,
       ⟨true, .forFunction none (some "main") 0 "/usr/bin/b.out"⟩] := by
  intro faithful
  let first : LineInfo := .forFunction none (some "main") 0 "/usr/bin/a.out"
  have shared := (faithful.definitions
    ⟨true, .forFunction none (some "main") 0 "/usr/bin/a.out"⟩
    (.region (first, first.region))
    ⟨true, .forFunction none (some "main") 0 "/usr/bin/b.out"⟩
    (.region (first, first.region))
    (by decide +kernel) (by decide +kernel) rfl).mp rfl
  exact absurd shared (by decide +kernel)

end Lo2s
