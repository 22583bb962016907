import Lo2s.Foundation.MemoTable
import Lo2s.LineInfo
import Lo2s.MemoryMap

/-!
# The DWARF resolver

`DwarfFunctionResolver` looks an address up in the debug information of an
object file, and if no function is found there in its symbol table.  The
answers are kept in a map: those from the debug information under the address,
those from the symbol table under the range of the symbol.
-/

namespace Lo2s

open Foundation OrderedMap

/-- A function of a compilation unit. -/
structure FunctionDie where
  hasPc : Address → Bool
  name : Option String

/-- A compilation unit as libdw shows it: `haspc`, and of the line it finds for
an address the number and the source file. -/
structure CompilationUnit where
  hasPc : Address → Bool
  lineno : Address → Int32
  srcname : Address → Option String
  functions : List FunctionDie

/-- The name that `dwarf_getfuncs` leaves behind; the first function with the
address ends the search. -/
def containingFunc (addr : Address) : List FunctionDie → String
  | [] => ""
  | die :: dies =>
      if die.hasPc addr then die.name.getD "" else containingFunc addr dies

/-- What `dwfl_module_getsym_info` says of a symbol. -/
structure ElfSymbol where
  name : Option String
  symAddr : UInt64
  stSize : UInt64
  bias : UInt64

/-- The range of a symbol that contains an address. -/
def ElfSymbol.rangeAt (addr : Address) (sym : ElfSymbol) : Option Range :=
  if inside : sym.symAddr - sym.bias ≤ addr ∧
      addr < sym.symAddr + sym.stSize - sym.bias then
    some ⟨_, _, UInt64.le_trans inside.1 (UInt64.le_of_lt inside.2)⟩
  else none

/-- An object file; `useDebugInfo` is that `dwarf.usage` is not `NONE`. -/
structure ObjectFile where
  moduleName : String
  useDebugInfo : Bool
  units : List CompilationUnit
  symbols : List ElfSymbol

namespace ObjectFile

/-- The loop over the compilation units. -/
def searchUnits (moduleName : String) (addr : Address) :
    List CompilationUnit → Option LineInfo
  | [] => none
  | cu :: cus =>
      let name := containingFunc addr cu.functions
      if cu.hasPc addr ∧ name ≠ "" then
        some (.forFunction (cu.srcname addr) (some name)
          (cu.lineno addr).toUInt32 moduleName)
      else searchUnits moduleName addr cus

/-- The answer of the debug information. -/
def debugInfo (o : ObjectFile) (addr : Address) : Option LineInfo :=
  if o.useDebugInfo then searchUnits o.moduleName addr o.units else none

/-- The loop over the symbol table: the first symbol with the address. -/
def findSymbol (addr : Address) : List ElfSymbol → Option (Range × ElfSymbol)
  | [] => none
  | sym :: syms =>
      match sym.rangeAt addr with
      | some range => some (range, sym)
      | none => findSymbol addr syms

/-- The answer for a symbol. -/
def symbolInfo (o : ObjectFile) (sym : ElfSymbol) : LineInfo :=
  .forFunction (some o.moduleName) sym.name 1 o.moduleName

end ObjectFile

structure DwarfFunctionResolver where
  object : ObjectFile
  cache : List (Range × LineInfo)

namespace DwarfFunctionResolver

/-- `cache_.emplace(key, info).first->second`. -/
def emplace (key : Range) (info : LineInfo) (r : DwarfFunctionResolver) :
    LineInfo × DwarfFunctionResolver :=
  (emplaced Range.lt key info r.cache,
    { r with cache := (OrderedMap.emplace Range.lt key info r.cache).1 })

def lookupLineInfo (addr : Address) (r : DwarfFunctionResolver) :
    LineInfo × DwarfFunctionResolver :=
  match find? Range.lt (.ofPoint addr) r.cache with
  | some place => (place.entry.2, r)
  | none =>
      match r.object.debugInfo addr with
      | some info => r.emplace (.ofPoint addr) info
      | none =>
          match ObjectFile.findSymbol addr r.object.symbols with
          | some (range, sym) => r.emplace range (r.object.symbolInfo sym)
          | none => r.emplace (.ofPoint addr) (.forBinary r.object.moduleName)

/-- A fresh resolver. -/
def init (object : ObjectFile) : DwarfFunctionResolver := ⟨object, []⟩

/-- The resolver after some lookups. -/
def after (r : DwarfFunctionResolver) (addrs : List Address) :
    DwarfFunctionResolver :=
  addrs.foldl (fun r addr => (r.lookupLineInfo addr).2) r

end DwarfFunctionResolver

end Lo2s
