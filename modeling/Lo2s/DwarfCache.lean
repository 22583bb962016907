import Lo2s.DwarfResolver
import Lo2s.RangeMap

/-!
# The cache of the DWARF resolver

The cache is a memo table in which the answer for a symbol covers all of its
addresses.  It changes no answer as long as the symbols that are answered with
do not overlap, except under one name, and have no debug information in them
that says something else.
-/

namespace Lo2s

open Foundation OrderedMap

namespace ObjectFile

/-- What is stored for an address that is looked up for the first time. -/
def fresh (o : ObjectFile) (addr : Address) : Range × LineInfo :=
  match o.debugInfo addr with
  | some info => (.ofPoint addr, info)
  | none =>
      match findSymbol addr o.symbols with
      | some (range, sym) => (range, o.symbolInfo sym)
      | none => (.ofPoint addr, .forBinary o.moduleName)

/-- The cache as a memo table. -/
def memo (o : ObjectFile) : MemoTable Address Range LineInfo where
  less := Range.lt
  probe := .ofPoint
  key addr := (o.fresh addr).1
  value addr := (o.fresh addr).2

/-- A symbol that some address without debug information is answered with. -/
def Used (o : ObjectFile) (range : Range) (sym : ElfSymbol) : Prop :=
  ∃ addr, o.debugInfo addr = none ∧
    findSymbol addr o.symbols = some (range, sym)

/-- The symbols that are used agree with the debug information in them, and
with each other where they overlap. -/
structure Consistent (o : ObjectFile) : Prop where
  debug : ∀ range sym, o.Used range sym → ∀ addr info, range.Contains addr →
    o.debugInfo addr = some info → info = o.symbolInfo sym
  symbols : ∀ left leftSym right rightSym, o.Used left leftSym →
    o.Used right rightSym → Overlap Range.lt left right →
      o.symbolInfo leftSym = o.symbolInfo rightSym

theorem rangeAt_some {sym : ElfSymbol} {addr : Address} {range : Range}
    (found : sym.rangeAt addr = some range) :
    range.Contains addr ∧
      ∀ other, range.Contains other → sym.rangeAt other = some range := by
  unfold ElfSymbol.rangeAt at found
  split at found
  · rename_i inside
    cases found
    exact ⟨inside, fun other inside => dif_pos inside⟩
  · cases found

theorem findSymbol_some {addr : Address} {syms : List ElfSymbol}
    {range : Range} {sym : ElfSymbol}
    (found : findSymbol addr syms = some (range, sym)) :
    sym ∈ syms ∧ sym.rangeAt addr = some range := by
  induction syms with
  | nil => cases found
  | cons first syms induction =>
      rw [findSymbol] at found
      cases here : first.rangeAt addr with
      | some other =>
          rw [here] at found
          cases found
          exact ⟨List.mem_cons_self, here⟩
      | none =>
          rw [here] at found
          obtain ⟨member, contains⟩ := induction found
          exact ⟨List.mem_cons_of_mem first member, contains⟩

theorem findSymbol_none {addr : Address} {syms : List ElfSymbol}
    (absent : findSymbol addr syms = none) {sym : ElfSymbol}
    (member : sym ∈ syms) : sym.rangeAt addr = none := by
  induction syms with
  | nil => cases member
  | cons first syms induction =>
      rw [findSymbol] at absent
      cases here : first.rangeAt addr with
      | some other =>
          rw [here] at absent
          cases absent
      | none =>
          rw [here] at absent
          rcases List.mem_cons.mp member with rfl | later
          · exact here
          · exact induction absent later

/-- Where an answer comes from. -/
inductive Answered (o : ObjectFile) (addr : Address) : Prop where
  | debug (info : LineInfo) :
      o.debugInfo addr = some info → o.fresh addr = (.ofPoint addr, info) →
      Answered o addr
  | symbol (range : Range) (sym : ElfSymbol) :
      o.Used range sym → range.Contains addr →
      o.fresh addr = (range, o.symbolInfo sym) → Answered o addr
  | binary :
      (∀ range sym, o.Used range sym → ¬ range.Contains addr) →
      o.fresh addr = (.ofPoint addr, .forBinary o.moduleName) →
      Answered o addr

theorem answered (o : ObjectFile) (addr : Address) : o.Answered addr := by
  cases debug : o.debugInfo addr with
  | some info => exact .debug info debug (by simp only [fresh, debug])
  | none =>
      cases found : findSymbol addr o.symbols with
      | some entry =>
          obtain ⟨range, sym⟩ := entry
          exact .symbol range sym ⟨addr, debug, found⟩
            (rangeAt_some (findSymbol_some found).2).1
            (by simp only [fresh, debug, found])
      | none =>
          refine .binary ?_ (by simp only [fresh, debug, found])
          intro range sym used inside
          obtain ⟨other, _, answered⟩ := used
          obtain ⟨member, contains⟩ := findSymbol_some answered
          have here := (rangeAt_some contains).2 addr inside
          rw [findSymbol_none found member] at here
          cases here

theorem Used.fresh {o : ObjectFile} {range : Range} {sym : ElfSymbol}
    (used : o.Used range sym) :
    ∃ addr, o.fresh addr = (range, o.symbolInfo sym) := by
  obtain ⟨addr, debug, found⟩ := used
  exact ⟨addr, by simp only [ObjectFile.fresh, debug, found]⟩

/-- Entries that overlap hold the same answer exactly if the symbols that are
used are consistent. -/
theorem consistent_iff (o : ObjectFile) :
    o.Consistent ↔ ∀ left right,
      Overlap Range.lt (o.fresh left).1 (o.fresh right).1 →
        (o.fresh left).2 = (o.fresh right).2 := by
  constructor
  · intro consistent left right overlap
    have points : Overlap Range.lt (.ofPoint left) (.ofPoint right) →
        (o.fresh left).2 = (o.fresh right).2 := fun overlap =>
      congrArg (fun addr => (o.fresh addr).2)
        (Range.eq_of_contains_ofPoint (Range.overlap_ofPoint.mp overlap))
    rcases o.answered left with ⟨info, debug, fresh⟩ |
      ⟨range, sym, used, _, fresh⟩ | ⟨unused, fresh⟩
    · rcases o.answered right with ⟨info', _, fresh'⟩ |
        ⟨range', sym', used', _, fresh'⟩ | ⟨_, fresh'⟩
      · exact points (by simpa only [fresh, fresh'] using overlap)
      · rw [fresh, fresh'] at overlap ⊢
        exact consistent.debug range' sym' used' left info
          (Range.overlap_ofPoint.mp overlap) debug
      · exact points (by simpa only [fresh, fresh'] using overlap)
    · rcases o.answered right with ⟨info', debug', fresh'⟩ |
        ⟨range', sym', used', _, fresh'⟩ | ⟨unused', fresh'⟩
      · rw [fresh, fresh'] at overlap ⊢
        exact (consistent.debug range sym used right info'
          (Range.overlap_ofPoint.mp overlap.symm) debug').symm
      · rw [fresh, fresh'] at overlap ⊢
        exact consistent.symbols range sym range' sym' used used' overlap
      · rw [fresh, fresh'] at overlap
        exact absurd (Range.overlap_ofPoint.mp overlap.symm)
          (unused' range sym used)
    · rcases o.answered right with ⟨info', _, fresh'⟩ |
        ⟨range', sym', used', _, fresh'⟩ | ⟨_, fresh'⟩
      · exact points (by simpa only [fresh, fresh'] using overlap)
      · rw [fresh, fresh'] at overlap
        exact absurd (Range.overlap_ofPoint.mp overlap)
          (unused range' sym' used')
      · exact points (by simpa only [fresh, fresh'] using overlap)
  · intro agree
    constructor
    · intro range sym used addr info inside debug
      obtain ⟨other, answer⟩ := used.fresh
      have point : o.fresh addr = (.ofPoint addr, info) := by
        simp only [fresh, debug]
      have same := agree addr other
      rw [point, answer] at same
      exact same (Range.overlap_ofPoint.mpr inside)
    · intro left leftSym right rightSym leftUsed rightUsed overlap
      obtain ⟨leftAddr, leftAnswer⟩ := leftUsed.fresh
      obtain ⟨rightAddr, rightAnswer⟩ := rightUsed.fresh
      have same := agree leftAddr rightAddr
      rw [leftAnswer, rightAnswer] at same
      exact same overlap

theorem lookupLineInfo_eq (r : DwarfFunctionResolver) (addr : Address) :
    r.lookupLineInfo addr =
      ((r.object.memo.lookup addr r.cache).1,
        { r with cache := (r.object.memo.lookup addr r.cache).2 }) := by
  rw [DwarfFunctionResolver.lookupLineInfo, MemoTable.lookup]
  simp only [memo, fresh]
  cases find? Range.lt (.ofPoint addr) r.cache with
  | some place => rfl
  | none =>
      cases r.object.debugInfo addr with
      | some info => rfl
      | none =>
          cases findSymbol addr r.object.symbols <;> rfl

theorem after_init (o : ObjectFile) (addrs : List Address) :
    (DwarfFunctionResolver.init o).after addrs = ⟨o, o.memo.after addrs⟩ := by
  induction addrs using List.reverseRecOn with
  | nil => rfl
  | append_singleton addrs addr induction =>
      have resolver : (DwarfFunctionResolver.init o).after (addrs ++ [addr]) =
          (((DwarfFunctionResolver.init o).after addrs).lookupLineInfo addr).2 :=
        List.foldl_append
      have table : o.memo.after (addrs ++ [addr]) =
          (o.memo.lookup addr (o.memo.after addrs)).2 := List.foldl_append
      rw [resolver, induction, lookupLineInfo_eq, table]

end ObjectFile

namespace DwarfFunctionResolver

/-- Every lookup has the answer of a fresh resolver. -/
def Transparent (object : ObjectFile) : Prop :=
  ∀ earlier addr, (((init object).after earlier).lookupLineInfo addr).1 =
    ((init object).lookupLineInfo addr).1

/-- The cache is transparent exactly if the symbols that are used are
consistent. -/
theorem transparent_iff_consistent (object : ObjectFile) :
    Transparent object ↔ object.Consistent := by
  have table : Transparent object ↔ object.memo.Transparent := by
    simp only [Transparent, MemoTable.Transparent, ObjectFile.after_init,
      ObjectFile.lookupLineInfo_eq]
    rfl
  rw [table, ObjectFile.consistent_iff]
  apply MemoTable.transparent_iff Range.lt_trans
  intro addr key overlap
  have inside : key.Contains addr := Range.overlap_ofPoint.mp overlap
  show Overlap Range.lt (object.fresh addr).1 key
  rcases object.answered addr with ⟨_, _, fresh⟩ |
    ⟨range, sym, _, contains, fresh⟩ | ⟨_, fresh⟩
  · rw [fresh]
    exact overlap
  · rw [fresh]
    exact Range.overlap_of_contains contains inside
  · rw [fresh]
    exact overlap

/-- A function with an entry point inside it. -/
def nestedSymbols : ObjectFile where
  moduleName := "/usr/lib/libfoo.so"
  useDebugInfo := false
  units := []
  symbols := [⟨some "entry", 0x1004, 4, 0⟩, ⟨some "body", 0x1000, 16, 0⟩]

/-- After a lookup in the function, the entry point is answered with it. -/
theorem entry_shadowed :
    (((init nestedSymbols).after [0x1000]).lookupLineInfo 0x1005).1.function =
        "body" ∧
      ((init nestedSymbols).lookupLineInfo 0x1005).1.function = "entry" ∧
      ¬ Transparent nestedSymbols := by
  have cached : (((init nestedSymbols).after [0x1000]).lookupLineInfo
      0x1005).1.function = "body" := by decide
  have first : ((init nestedSymbols).lookupLineInfo 0x1005).1.function =
      "entry" := by decide
  refine ⟨cached, first, fun transparent => ?_⟩
  rw [transparent [0x1000] 0x1005, first] at cached
  exact absurd cached (by decide)

end DwarfFunctionResolver

end Lo2s
