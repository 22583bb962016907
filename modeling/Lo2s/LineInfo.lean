import Mathlib.Tactic.Common

/-!
# Line information

What a function resolver answers: a function, the place of its source, and the
object it is in.
-/

namespace Lo2s

/-- `std::filesystem::path::filename`: what follows the last slash. -/
def pathFilename (path : String) : String :=
  String.ofList (path.toList.reverse.takeWhile (· != '/')).reverse

/-- `c_str`: a text up to its first null character. -/
def cStr (text : List Char) : String :=
  String.ofList (text.takeWhile (· != '\x00'))

structure LineInfo where
  file : String
  function : String
  line : UInt32
  dso : String
  deriving DecidableEq, Repr

namespace LineInfo

def unknownLine : UInt32 := 0

/-- The constructor, which replaces an unknown line. -/
def make (file function : String) (line : UInt32) (dso : String) : LineInfo where
  file := file
  function := function
  line := if line ≠ unknownLine then line else 1
  dso := dso

/-- `for_function`; a null pointer is `none`. -/
def forFunction (file function : Option String) (line : UInt32)
    (dso : String) : LineInfo :=
  make (file.getD "<unknown file>") (function.getD "<unknown function>") line
    (pathFilename dso)

def forUnknownFunction : LineInfo :=
  make "<unknown file>" "<unknown function>" unknownLine "<unknown binary>"

def forBinary (binary : String) : LineInfo :=
  make binary binary unknownLine binary

end LineInfo

end Lo2s
