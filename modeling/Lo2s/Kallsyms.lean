import Lo2s.Foundation.Scan
import Lo2s.LineInfo
import Lo2s.RangeMap

/-!
# Kernel symbols

`/proc/kallsyms` lists the symbols of the kernel in no particular order.  The
constructor of `Kallsyms` sorts the text symbols by their address and gives each
the range up to the next one.
-/

namespace Lo2s

open Foundation Scan OrderedMap

def Address.lt (lhs rhs : Address) : Bool := lhs < rhs

@[simp] theorem Address.lt_iff {lhs rhs : Address} :
    lhs.lt rhs = true ↔ lhs < rhs := by
  simp [lt]

theorem Address.lt_trans (first second third : Address)
    (left : first.lt second = true) (right : second.lt third = true) :
    first.lt third = true := by
  rw [lt_iff] at left right ⊢
  exact UInt64.lt_trans left right

/-- `ksym_regex`: the address and the name. -/
def ksymRegex (line : List Char) : Option (List Char × List Char) := do
  let (address, rest) ← many1 (isDigit 16) line
  let rest ← literal [' '] rest
  let rest ← literal ['t'] rest <|> literal ['T'] rest
  let rest ← literal [' '] rest
  let (name, rest) ← many1 (fun c => !isSpace c) rest
  if rest = [] then some (address, name) else none

/-- `stoull` of a hexadecimal number. -/
def stoull (digits : List Char) : Except Failure UInt64 :=
  if ofDigits 16 digits < 2 ^ 64 then .ok (.ofNat (ofDigits 16 digits))
  else .error .outOfRange

structure Kallsyms where
  symbols : RangeMap (List Char)
  start : UInt64

/-- The variables of the loop over the sorted symbols. -/
structure KsymLoop where
  kallsyms : Kallsyms
  symStr : List Char
  prev : Address

namespace Kallsyms

/-- The members before the file is read. -/
def init : Kallsyms where
  symbols := []
  start := Address.max

/-- The loop over the lines of the file; with an address of zero it returns
from the constructor. -/
def readLines : List String → List (Address × List Char) →
    Except Failure (Option (List (Address × List Char)))
  | [], entries => .ok (some entries)
  | line :: lines, entries =>
      match ksymRegex line.toList with
      | none => readLines lines entries
      | some (addressText, symStr) => do
          let symAddr ← stoull addressText
          let more := (emplace Address.lt symAddr symStr entries).1
          if symAddr = 0 then return none else readLines lines more

/-- One round of the loop over the sorted symbols. -/
def round (loop : KsymLoop) (entry : Address × List Char) :
    Except Failure KsymLoop :=
  if loop.prev ≠ 0 ∧ loop.prev ≠ entry.1 then do
    let range ← Range.ofBounds loop.prev entry.1
    let symbols := loop.kallsyms.symbols.emplace range loop.symStr
    return ⟨{ loop.kallsyms with symbols := symbols }, entry.2, entry.1⟩
  else .ok ⟨{ loop.kallsyms with start := entry.1 }, entry.2, entry.1⟩

def rounds : List (Address × List Char) → KsymLoop → Except Failure KsymLoop
  | [], loop => .ok loop
  | entry :: entries, loop => do
      let loop ← round loop entry
      rounds entries loop

/-- What follows the loop: the range of the last symbol. -/
def close (loop : KsymLoop) : Except Failure Kallsyms :=
  if loop.symStr = [] then .ok loop.kallsyms
  else do
    let range ← Range.ofBounds loop.prev .max
    let symbols := loop.kallsyms.symbols.emplace range loop.symStr
    return { loop.kallsyms with symbols := symbols }

/-- The constructor, of the lines of the file if it can be opened. -/
def ofFile : Option (List String) → Except Failure Kallsyms
  | none => .ok init
  | some lines => do
      match ← readLines lines [] with
      | none => return init
      | some entries => do
          let loop ← rounds entries ⟨init, [], 0⟩
          close loop

def lookupLineInfo (kallsyms : Kallsyms) (addr : Address) : LineInfo :=
  match kallsyms.symbols.find (addr + kallsyms.start) with
  | some entry => .forFunction (some "") (some (cStr entry.2)) 1 "[kernel]"
  | none => .forBinary "[kernel]"

end Kallsyms

/-- A symbol, as the kernel lists it.  Those of a module have its name behind
them. -/
structure KernelSymbol where
  address : Numeral 16
  type : Char
  name : List Char
  moduleName : Option (List Char)
  address_lt : address.value < 2 ^ 64
  name_text : name ≠ [] ∧ ∀ c ∈ name, isSpace c = false ∧ c ≠ '\x00'

namespace KernelSymbol

def owner (sym : KernelSymbol) : List Char :=
  match sym.moduleName with
  | none => []
  | some name => '\t' :: '[' :: (name ++ [']'])

def line (sym : KernelSymbol) : List Char :=
  sym.address.digits ++ ' ' :: sym.type :: ' ' :: (sym.name ++ sym.owner)

def text (sym : KernelSymbol) : String := String.ofList sym.line

def IsText (sym : KernelSymbol) : Prop := sym.type = 't' ∨ sym.type = 'T'

instance (sym : KernelSymbol) : Decidable sym.IsText :=
  inferInstanceAs (Decidable (_ ∨ _))

/-- A text symbol that belongs to no module. -/
def IsKernelText (sym : KernelSymbol) : Prop :=
  sym.IsText ∧ sym.moduleName = none

instance (sym : KernelSymbol) : Decidable sym.IsKernelText :=
  inferInstanceAs (Decidable (_ ∧ _))

/-- The line information that names the symbol. -/
def info (sym : KernelSymbol) : LineInfo :=
  .forFunction (some "") (some (String.ofList sym.name)) 1 "[kernel]"

def addr (sym : KernelSymbol) : Address := .ofNat sym.address.value

theorem toNat_addr (sym : KernelSymbol) :
    sym.addr.toNat = sym.address.value :=
  UInt64.toNat_ofNat_of_lt' sym.address_lt

theorem stoull_digits (sym : KernelSymbol) :
    stoull sym.address.digits = .ok sym.addr :=
  if_pos sym.address_lt

theorem cStr_name (sym : KernelSymbol) :
    cStr sym.name = String.ofList sym.name := by
  have whole : sym.name.takeWhile (· != '\x00') = sym.name := by
    have run : (sym.name ++ []).takeWhile (· != '\x00') = sym.name :=
      (run_append (fun c member => by simpa using (sym.name_text.2 c member).2)
        (by simp)).1
    rwa [List.append_nil] at run
  rw [cStr, whole]

theorem many1_name (sym : KernelSymbol) :
    many1 (fun c => !isSpace c) (sym.name ++ sym.owner) =
      some (sym.name, sym.owner) := by
  refine many1_append sym.name_text.1 ?_ ?_
  · intro c member
    simpa using (sym.name_text.2 c member).1
  · intro c first
    unfold owner at first
    split at first
    · cases first
    · cases first
      rfl

/-- The regular expression matches the text symbols that belong to no
module. -/
theorem ksymRegex_line (sym : KernelSymbol) :
    ksymRegex sym.line =
      if sym.IsKernelText then some (sym.address.digits, sym.name)
      else none := by
  have address : many1 (isDigit 16) sym.line = some (sym.address.digits,
      ' ' :: sym.type :: ' ' :: (sym.name ++ sym.owner)) :=
    sym.address.many1_append fun c first => Option.some.inj first ▸ rfl
  have empty : sym.owner = [] ↔ sym.moduleName = none := by
    unfold owner
    split <;> simp [*]
  rw [ksymRegex, address]
  by_cases small : sym.type = 't'
  · simp [literal, small, many1_name, empty, IsKernelText, IsText]
  · by_cases capital : sym.type = 'T'
    · simp [literal, capital, many1_name, empty, IsKernelText, IsText]
    · simp [literal, small, capital, IsKernelText, IsText]

end KernelSymbol

end Lo2s
