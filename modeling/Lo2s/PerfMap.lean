import Lo2s.Foundation.Scan
import Lo2s.LineInfo
import Lo2s.RangeMap

/-!
# JIT perf maps

A just-in-time compiler lists what it emitted in `/tmp/perf-PID.map`.  The
constructor of `PerfMap` goes over the lines of that file: the start of the
mapping is taken from the first of them, its end from the map of all entries.
-/

namespace Lo2s

open Foundation Scan OrderedMap

/-- `Address` of a hexadecimal number; if it is too large the stream leaves the
highest value behind. -/
def Address.ofHex (digits : List Char) : Address :=
  if ofDigits 16 digits < 2 ^ 64 then .ofNat (ofDigits 16 digits) else .max

theorem Address.toNat_ofHex {number : Numeral 16}
    (small : number.value < 2 ^ 64) :
    (Address.ofHex number.digits).toNat = number.value := by
  unfold Numeral.value at small
  rw [ofHex, if_pos small]
  exact UInt64.toNat_ofNat_of_lt' small

/-- `(.+)` up to the end of the text. -/
def restOfLine (text : List Char) : Option (List Char) :=
  if text ≠ [] ∧ text.all (fun c => !endsLine c) then some text else none

/-- `perf_map_regex`: the start, the size and the symbol. -/
def perfMapRegex (line : List Char) :
    Option (List Char × List Char × List Char) := do
  let (start, rest) ← many1 (isDigit 16) line
  let rest ← literal [' '] rest
  let (size, rest) ← many1 (isDigit 16) rest
  let rest ← literal [' '] rest
  let symbol ← restOfLine rest
  return (start, size, symbol)

/-- A text around its last `:` with something behind it. -/
def aroundColon : List Char → Option (List Char × List Char)
  | [] => none
  | c :: text =>
      match aroundColon text with
      | some (front, back) =>
          if endsLine c then none else some (c :: front, back)
      | none =>
          if c = ':' then (restOfLine text).map fun back => ([], back) else none

/-- `python_regex`: the function and the file.  The function is as long as it
can be. -/
def pythonRegex (symbol : List Char) : Option (List Char × List Char) := do
  let text ← literal "py::".toList symbol
  let (function, filename) ← aroundColon text
  if function = [] then none else some (function, filename)

def symbolInfo (symbol : List Char) : LineInfo :=
  match pythonRegex symbol with
  | some (function, filename) =>
      let file := if filename.head? = some '<' then "<unknown file>"
        else cStr filename
      .forFunction file (cStr function) 0 (String.ofList filename)
  | none => .forFunction "<unknown file>" (cStr symbol) 0 "<jit>"

structure PerfMap where
  entries : RangeMap LineInfo
  start : Address
  end_ : Address

namespace PerfMap

/-- The members before the file is read. -/
def init : PerfMap where
  entries := []
  start := .max
  end_ := .max

/-- One round of the loop. -/
def addLine (map : PerfMap) (line : String) : Except Failure PerfMap :=
  match perfMapRegex line.toList with
  | none => .ok map
  | some (startText, sizeText, symbol) => do
      let start := Address.ofHex startText
      let mapStart := if map.start = .max then start else map.start
      let end_ := start + Address.ofHex sizeText
      let range ← Range.ofBounds start end_
      return { map with
        entries := map.entries.emplace range (symbolInfo symbol)
        start := mapStart }

def addLines : List String → PerfMap → Except Failure PerfMap
  | [], map => .ok map
  | line :: lines, map => do
      let map ← addLine map line
      addLines lines map

/-- The constructor, of the lines of the file. -/
def ofFile (lines : List String) : Except Failure PerfMap := do
  let map ← addLines lines init
  match map.entries.getLast? with
  | none => return map
  | some last => return { map with end_ := last.1.end_ }

def mapping (map : PerfMap) : Except Failure Mapping := do
  let range ← Range.ofBounds map.start map.end_
  return ⟨range, 0⟩

def lookupLineInfo (map : PerfMap) (addr : Address) : LineInfo :=
  match map.entries.find (addr + map.start) with
  | some entry => entry.2
  | none => .forUnknownFunction

end PerfMap

/-- An entry of a perf map. -/
structure PerfMapEntry where
  start : Numeral 16
  size : Numeral 16
  symbol : List Char
  symbol_text : symbol ≠ [] ∧ ∀ c ∈ symbol, endsLine c = false

namespace PerfMapEntry

def line (entry : PerfMapEntry) : List Char :=
  entry.start.digits ++ ' ' :: (entry.size.digits ++ ' ' :: entry.symbol)

def stop (entry : PerfMapEntry) : Nat := entry.start.value + entry.size.value

def info (entry : PerfMapEntry) : LineInfo := symbolInfo entry.symbol

def Contains (entry : PerfMapEntry) (addr : Address) : Prop :=
  entry.start.value ≤ addr.toNat ∧ addr.toNat < entry.stop

/-- The ranges are disjoint. -/
def Apart (left right : PerfMapEntry) : Prop :=
  left.stop ≤ right.start.value ∨ right.stop ≤ left.start.value

instance (left right : PerfMapEntry) : Decidable (left.Apart right) :=
  inferInstanceAs (Decidable (_ ∨ _))

end PerfMapEntry

inductive PerfMapLine where
  | symbol (entry : PerfMapEntry)
  | other (text : List Char) (unmatched : perfMapRegex text = none)

namespace PerfMapLine

def text : PerfMapLine → String
  | .symbol entry => String.ofList entry.line
  | .other text _ => String.ofList text

def entry? : PerfMapLine → Option PerfMapEntry
  | .symbol entry => some entry
  | .other _ _ => none

end PerfMapLine

/-- The entries of a perf map, in the order of its lines. -/
def listed (lines : List PerfMapLine) : List PerfMapEntry :=
  lines.filterMap PerfMapLine.entry?

theorem restOfLine_eq {text : List Char}
    (valid : text ≠ [] ∧ ∀ c ∈ text, endsLine c = false) :
    restOfLine text = some text := by
  refine if_pos ⟨valid.1, List.all_eq_true.mpr fun c member => ?_⟩
  rw [valid.2 c member]
  rfl

theorem restOfLine_some {text rest : List Char}
    (found : restOfLine text = some rest) :
    text = rest ∧ rest ≠ [] ∧ ∀ c ∈ rest, endsLine c = false := by
  unfold restOfLine at found
  split_ifs at found with valid
  cases found
  obtain ⟨nonempty, all⟩ := valid
  refine ⟨rfl, nonempty, fun c member => ?_⟩
  simpa using List.all_eq_true.mp all c member

theorem perfMapRegex_line (entry : PerfMapEntry) :
    perfMapRegex entry.line =
      some (entry.start.digits, entry.size.digits, entry.symbol) := by
  have number : ∀ (numeral : Numeral 16) (rest : List Char),
      many1 (isDigit 16) (numeral.digits ++ ' ' :: rest) =
        some (numeral.digits, ' ' :: rest) := fun numeral rest =>
    numeral.many1_append fun c first => Option.some.inj first ▸ rfl
  have blank : ∀ rest, literal [' '] (' ' :: rest) = some rest := literal_append [' ']
  have symbol : restOfLine entry.symbol = some entry.symbol :=
    restOfLine_eq entry.symbol_text
  simp [perfMapRegex, PerfMapEntry.line, number, blank, symbol]

theorem perfMapRegex_some {text start size symbol : List Char}
    (found : perfMapRegex text = some (start, size, symbol)) :
    ∃ entry : PerfMapEntry, entry.line = text := by
  simp only [perfMapRegex, Option.bind_eq_bind, Option.bind_eq_some_iff,
    Option.pure_def, Option.some.injEq, Prod.exists] at found
  obtain ⟨start, rest₁, matched₁, rest₂, blank₁, size, rest₃, matched₂, rest₄,
    blank₂, symbol, matched₃, _⟩ := found
  obtain ⟨rfl, startNonempty, startValid⟩ := many1_some matched₁
  obtain ⟨rfl, sizeNonempty, sizeValid⟩ := many1_some matched₂
  obtain ⟨rfl, symbolText⟩ := restOfLine_some matched₃
  rw [literal_some blank₁, literal_some blank₂]
  exact ⟨⟨⟨start, startNonempty, startValid⟩, ⟨size, sizeNonempty, sizeValid⟩,
    rest₄, symbolText⟩, rfl⟩

theorem PerfMapLine.exists_text (text : List Char) :
    ∃ line : PerfMapLine, line.text = String.ofList text := by
  cases found : perfMapRegex text with
  | none => exact ⟨.other text found, rfl⟩
  | some parts =>
      obtain ⟨entry, printed⟩ := perfMapRegex_some found
      exact ⟨.symbol entry, congrArg String.ofList printed⟩

end Lo2s
