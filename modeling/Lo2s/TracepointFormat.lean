import Lo2s.Foundation.Scan
import Lo2s.Resolvers

/-!
# Tracepoint formats

The kernel describes the record of a tracepoint in a format file, one field a
line.  `parse_format_line` finds the fields with two regular expressions, which
are scanners here.
-/

namespace Lo2s

open Foundation Scan

structure EventField where
  name : String
  offset : Int
  size : Nat
  deriving DecidableEq, Repr

/-- Whether a number of bytes is the size of an integer. -/
def isIntegerSize (size : Nat) : Bool :=
  size == 1 || size == 2 || size == 4 || size == 8

namespace EventField

def isInteger (field : EventField) : Bool := isIntegerSize field.size

end EventField

/-- `std::stol` of digits. -/
def stol (digits : List Char) : Except Failure Nat :=
  if ofDigits 10 digits < 2 ^ 63 then .ok (ofDigits 10 digits)
  else .error .outOfRange

/-- One part of `field_regex`: `\s+label(value+);`. -/
def fieldPart (label : String) (allowed : Char → Bool) (text : List Char) :
    Option (List Char × List Char) := do
  let (_, text) ← many1 isSpace text
  let text ← literal label.toList text
  let (value, text) ← many1 allowed text
  let text ← literal [';'] text
  return (value, text)

/-- `field_regex`: the declaration of a field, its offset and its size. -/
def fieldRegex (line : List Char) :
    Option (List Char × List Char × List Char) := do
  let (param, rest) ← fieldPart "field:" (· != ';') line
  let (offset, rest) ← fieldPart "offset:" (isDigit 10) rest
  let (size, rest) ← fieldPart "size:" (isDigit 10) rest
  let (_, rest) ← fieldPart "signed:" (isDigit 10) rest
  if rest = [] then some (param, offset, size) else none

/-- `[^ \[\]]` -/
def inName (c : Char) : Bool := c != ' ' && c != '[' && c != ']'

/-- The part of `type_name_regex` behind the space: the name, if brackets
follow it they are not empty. -/
def declaredName (text : List Char) : Option (List Char) := do
  let (name, rest) ← many1 inName text
  if rest = [] then some name
  else do
    let rest ← literal ['['] rest
    let (_, rest) ← many1 (· != ']') rest
    if rest = [']'] then some name else none

/-- `type_name_regex`: the type and the name.  The type is as long as it can
be. -/
def typeNameRegex : List Char → Option (List Char × List Char)
  | [] => none
  | c :: text =>
      match typeNameRegex text with
      | some (type, name) => if endsLine c then none else some (c :: type, name)
      | none => if c = ' ' then (declaredName text).map fun name => ([], name)
          else none

/-- `parse_format_line`: the field that is appended to `fields_`. -/
def parseFormatLine (line : String) : Except Failure (Option EventField) :=
  match fieldRegex line.toList with
  | none => .ok none
  | some (param, offsetText, sizeText) => do
      let offset ← stol offsetText
      let size ← stol sizeText
      match typeNameRegex param with
      | none => return none
      | some (_, nameText) =>
          let field : EventField := ⟨String.ofList nameText, offset, size⟩
          return if startsWith field.name "common_" then none else some field

structure TracepointEventAttr where
  name : String
  fields : List EventField

/-- The name of an event with `/` as separator. -/
def slashed (name : String) : String :=
  String.ofList (name.toList.map fun c => if c = ':' then '/' else c)

namespace TracepointEventAttr

/-- The loop of `parse_format` over the lines of the file. -/
def parseLines : List String → List EventField →
    Except Failure (List EventField)
  | [], fields => .ok fields
  | line :: lines, fields => do
      let field ← parseFormatLine line
      parseLines lines (fields ++ field.toList)

/-- The constructor, where `formats` has the lines of the format file in each
directory of `/sys/kernel/tracing/events`. -/
def parseFormat (formats : String → List String) (name : String) :
    Except Failure TracepointEventAttr := do
  let name := slashed name
  let fields ← parseLines (formats name) []
  return ⟨name, fields⟩

end TracepointEventAttr

/-- A field of a record, as the kernel declares it.  The brackets of an array
are moved behind the name of the field, unless they belong to the type. -/
structure FieldDecl where
  type : List Char
  name : List Char
  /-- What is between the brackets. -/
  length : Option (List Char)
  offset : Numeral 10
  size : Numeral 10
  signed : Bool
  type_text : ∀ c ∈ type, c ≠ ';' ∧ endsLine c = false
  name_text : name ≠ [] ∧ ∀ c ∈ name, inName c = true ∧ c ≠ ';'
  length_text : ∀ text ∈ length, '[' ∉ type ∧
    ∀ c ∈ text, c ≠ '[' ∧ c ≠ ']' ∧ c ≠ ';'
  offset_lt : offset.value < 2 ^ 32
  size_lt : size.value < 2 ^ 32

/-- A part of the line of a field. -/
def printPart (label : String) (value rest : List Char) : List Char :=
  '\t' :: (label.toList ++ (value ++ ';' :: rest))

namespace FieldDecl

def brackets (decl : FieldDecl) : List Char :=
  match decl.length with
  | none => []
  | some text => '[' :: (text ++ [']'])

def declarator (decl : FieldDecl) : List Char := decl.name ++ decl.brackets

def param (decl : FieldDecl) : List Char := decl.type ++ ' ' :: decl.declarator

/-- The line of a field in the format file. -/
def line (decl : FieldDecl) : List Char :=
  printPart "field:" decl.param
    (printPart "offset:" decl.offset.digits
      (printPart "size:" decl.size.digits
        (printPart "signed:" [if decl.signed then '1' else '0'] [])))

/-- An array without a length. -/
def Flexible (decl : FieldDecl) : Prop := decl.length = some []

instance (decl : FieldDecl) : Decidable decl.Flexible :=
  inferInstanceAs (Decidable (_ = _))

end FieldDecl

theorem fieldPart_printPart (label : String) {allowed : Char → Bool}
    {value : List Char} (rest : List Char)
    (starts : label.toList.head?.any (fun c => !isSpace c) = true)
    (nonempty : value ≠ []) (inside : ∀ c ∈ value, allowed c = true)
    (ends : allowed ';' = false) :
    fieldPart label allowed (printPart label value rest) =
      some (value, rest) := by
  have blank : many1 isSpace (printPart label value rest) =
      some (['\t'], label.toList ++ (value ++ ';' :: rest)) := by
    have tab : ∀ c ∈ ['\t'], isSpace c = true :=
      List.forall_mem_singleton.mpr rfl
    apply many1_append (List.cons_ne_nil _ _) tab
    obtain ⟨c, first, noSpace⟩ := (Option.any_eq_true _ _).mp starts
    have head : (label.toList ++ (value ++ ';' :: rest)).head? = some c := by
      rw [List.head?_append, first, Option.some_or]
    intro x member
    have same : some c = some x := head.symm.trans member
    rw [← Option.some.inj same]
    simpa using noSpace
  have run : many1 allowed (value ++ ';' :: rest) =
      some (value, ';' :: rest) :=
    many1_append nonempty inside (by simpa using ends)
  have semicolon : literal [';'] (';' :: rest) = some rest :=
    literal_append [';'] rest
  simp only [fieldPart, blank, run, semicolon, literal_append,
    Option.bind_eq_bind, Option.bind_some, Option.pure_def]

section

variable {name text : List Char}

theorem declaredName_name (nonempty : name ≠ [])
    (inside : ∀ c ∈ name, inName c = true) : declaredName name = some name := by
  have run : many1 inName (name ++ []) = some (name, []) :=
    many1_append nonempty inside (by simp)
  rw [List.append_nil] at run
  simp [declaredName, run]

theorem many1_inName (nonempty : name ≠ [])
    (inside : ∀ c ∈ name, inName c = true) (text : List Char) :
    many1 inName (name ++ '[' :: text) = some (name, '[' :: text) :=
  many1_append nonempty inside (by simp [inName])

theorem declaredName_array (nonempty : name ≠ [])
    (inside : ∀ c ∈ name, inName c = true) (some_length : text ≠ [])
    (length : ']' ∉ text) :
    declaredName (name ++ '[' :: (text ++ [']'])) = some name := by
  have run := many1_inName nonempty inside (text ++ [']'])
  have opened : literal ['['] ('[' :: (text ++ [']'])) = some (text ++ [']']) :=
    literal_append ['['] _
  have inner : many1 (· != ']') (text ++ [']']) = some (text, [']']) :=
    many1_append some_length
      (fun c member => bne_iff_ne.mpr (ne_of_mem_of_not_mem member length))
      (by simp)
  simp [declaredName, run, opened, inner]

theorem declaredName_flexible (nonempty : name ≠ [])
    (inside : ∀ c ∈ name, inName c = true) :
    declaredName (name ++ ['[', ']']) = none := by
  have run := many1_inName nonempty inside [']']
  have opened : literal ['['] ['[', ']'] = some [']'] := literal_append ['['] _
  have inner : many1 (· != ']') [']'] = none := many1_eq_none (by simp)
  simp [declaredName, run, opened, inner]

/-- A name ends at the first blank or closing bracket, and nothing but an
opening bracket may follow it. -/
theorem declaredName_blocked {before after : List Char} {c : Char}
    (noBracket : '[' ∉ before) (ends : inName c = false) (other : c ≠ '[') :
    declaredName (before ++ c :: after) = none := by
  have left : ∃ x rest, (before ++ c :: after).dropWhile inName = x :: rest ∧
      x ≠ '[' := by
    induction before with
    | nil => exact ⟨c, after, by simp [ends], other⟩
    | cons x before induction =>
        rw [List.mem_cons, not_or] at noBracket
        by_cases inside : inName x = true
        · obtain ⟨y, rest, dropped, notOpen⟩ := induction noBracket.2
          exact ⟨y, rest, by simpa [inside] using dropped, notOpen⟩
        · exact ⟨x, _, by simp [inside]; rfl, fun same => noBracket.1 same.symm⟩
  obtain ⟨x, rest, dropped, notOpen⟩ := left
  rw [declaredName, many1]
  split_ifs with empty
  · rfl
  · simp [dropped, literal, notOpen]

theorem typeNameRegex_eq_none
    (unnamed : ∀ before after, text = before ++ ' ' :: after →
      declaredName after = none) : typeNameRegex text = none := by
  induction text with
  | nil => rfl
  | cons c text induction =>
      have inner := induction fun before after split =>
        unnamed (c :: before) after (by rw [split, List.cons_append])
      rw [typeNameRegex, inner]
      by_cases blank : c = ' '
      · rw [if_pos blank, unnamed [] text (by rw [blank, List.nil_append])]
        rfl
      · rw [if_neg blank]

theorem typeNameRegex_append {type : List Char}
    (oneLine : ∀ c ∈ type, endsLine c = false)
    (last : typeNameRegex text = none) (named : declaredName text = some name) :
    typeNameRegex (type ++ ' ' :: text) = some (type, name) := by
  induction type with
  | nil => simp [typeNameRegex, last, named]
  | cons c type induction =>
      have inner := induction fun x member =>
        oneLine x (List.mem_cons_of_mem c member)
      simp [typeNameRegex, inner, oneLine c List.mem_cons_self]

theorem split_behind_name {rest before after : List Char}
    (inside : ∀ c ∈ name, inName c = true)
    (split : name ++ rest = before ++ ' ' :: after) :
    ∃ inner, rest = inner ++ ' ' :: after := by
  obtain ⟨inner, _, rest⟩ | ⟨inner, named, rest⟩ :=
    List.append_eq_append_iff.mp split
  · exact ⟨inner, rest⟩
  · cases inner with
    | nil => exact ⟨[], rest.symm⟩
    | cons c inner =>
        have blank : c = ' ' := (List.cons.inj rest).1.symm
        have member : c ∈ name := by
          rw [named]
          exact List.mem_append_right _ List.mem_cons_self
        exact absurd (blank ▸ inside c member) (by decide)

theorem declaredName_in_brackets {before after : List Char}
    (length : ∀ c ∈ text, c ≠ '[')
    (split : '[' :: (text ++ [']']) = before ++ ' ' :: after) :
    declaredName after = none := by
  rcases before with _ | ⟨c, before⟩
  · exact absurd (List.cons.inj split).1 (by decide)
  have inner : text ++ [']'] = before ++ ' ' :: after :=
    (List.cons.inj split).2
  rcases List.eq_nil_or_concat' after with rfl | ⟨body, last, rfl⟩
  · have same := List.append_inj' inner rfl
    exact absurd same.2 (by decide)
  · rw [← List.cons_append, ← List.append_assoc] at inner
    obtain ⟨body_text, same⟩ := List.append_inj' inner rfl
    rw [List.cons.inj same |>.1.symm]
    refine declaredName_blocked (fun member => ?_) (by decide) (by decide)
    exact length _ (body_text ▸ by simp [member]) rfl

end

namespace FieldDecl

variable (decl : FieldDecl)

theorem inName_name : ∀ c ∈ decl.name, inName c = true :=
  fun c member => (decl.name_text.2 c member).1

/-- The last space of a declaration is before the name, except for spaces
between the brackets, which no name follows. -/
theorem typeNameRegex_declarator : typeNameRegex decl.declarator = none := by
  apply typeNameRegex_eq_none
  intro before after split
  obtain ⟨inner, rest⟩ := split_behind_name decl.inName_name split
  rw [brackets] at rest
  cases length : decl.length with
  | none =>
      rw [length] at rest
      simp at rest
  | some text =>
      rw [length] at rest
      exact declaredName_in_brackets
        (fun c member => ((decl.length_text text length).2 c member).1) rest

theorem declaredName_declarator (nonFlexible : ¬ decl.Flexible) :
    declaredName decl.declarator = some decl.name := by
  rw [declarator, brackets]
  cases length : decl.length with
  | none =>
      rw [List.append_nil]
      exact declaredName_name decl.name_text.1 decl.inName_name
  | some text =>
      refine declaredName_array decl.name_text.1 decl.inName_name ?_ ?_
      · rintro rfl
        exact nonFlexible length
      · exact fun member =>
          ((decl.length_text text length).2 _ member).2.1 rfl

/-- No space of the declaration of a flexible array is before a name. -/
theorem typeNameRegex_flexible (flexible : decl.Flexible) :
    typeNameRegex decl.param = none := by
  have brackets : decl.brackets = ['[', ']'] := by
    rw [FieldDecl.brackets, flexible]
    rfl
  rw [param, declarator, brackets]
  apply typeNameRegex_eq_none
  intro before after split
  obtain ⟨inner, rfl, rest⟩ | ⟨inner, typed, rest⟩ :=
    List.append_eq_append_iff.mp split
  · rcases inner with _ | ⟨c, inner⟩
    · obtain ⟨_, rfl⟩ := List.cons.inj rest
      exact declaredName_flexible decl.name_text.1 decl.inName_name
    · obtain ⟨within, rest⟩ :=
        split_behind_name decl.inName_name (List.cons.inj rest).2
      have blank : ' ' ∈ ['[', ']'] := by
        rw [rest]
        exact List.mem_append_right _ List.mem_cons_self
      exact absurd blank (by decide)
  · rcases inner with _ | ⟨c, inner⟩
    · obtain ⟨_, rfl⟩ := List.cons.inj rest
      exact declaredName_flexible decl.name_text.1 decl.inName_name
    · obtain ⟨_, rfl⟩ := List.cons.inj rest
      have noBracket : '[' ∉ inner := fun member =>
        (decl.length_text [] flexible).1 (by rw [typed]; simp [member])
      exact declaredName_blocked noBracket (by decide) (by decide)

theorem typeNameRegex_param :
    typeNameRegex decl.param =
      if decl.Flexible then none else some (decl.type, decl.name) := by
  by_cases flexible : decl.Flexible
  · rw [if_pos flexible, decl.typeNameRegex_flexible flexible]
  · rw [if_neg flexible, param]
    exact typeNameRegex_append (fun c member => (decl.type_text c member).2)
      decl.typeNameRegex_declarator
      (decl.declaredName_declarator flexible)

theorem param_text : decl.param ≠ [] ∧ ∀ c ∈ decl.param, (c != ';') = true := by
  refine ⟨by simp [param], fun c member => bne_iff_ne.mpr ?_⟩
  rw [param, declarator, brackets] at member
  rcases List.mem_append.mp member with typed | rest
  · exact (decl.type_text c typed).1
  rcases List.mem_cons.mp rest with rfl | rest
  · decide
  rcases List.mem_append.mp rest with named | rest
  · exact (decl.name_text.2 c named).2
  cases length : decl.length with
  | none =>
      rw [length] at rest
      cases rest
  | some text =>
      rw [length] at rest
      simp only [List.mem_cons, List.mem_append, List.not_mem_nil,
        or_false] at rest
      rcases rest with rfl | inside | rfl
      · decide
      · exact ((decl.length_text text length).2 c inside).2.2
      · decide

theorem fieldRegex_line :
    fieldRegex decl.line =
      some (decl.param, decl.offset.digits, decl.size.digits) := by
  have flag : ∀ c ∈ [if decl.signed then '1' else '0'], isDigit 10 c = true :=
    List.forall_mem_singleton.mpr (by cases decl.signed <;> decide)
  have first := fun rest => fieldPart_printPart "field:" rest
    (by decide) decl.param_text.1 decl.param_text.2 (by decide)
  have second := fun rest => fieldPart_printPart "offset:" rest
    (by decide) decl.offset.nonempty decl.offset.valid (by decide)
  have third := fun rest => fieldPart_printPart "size:" rest
    (by decide) decl.size.nonempty decl.size.valid (by decide)
  have last := fun rest => fieldPart_printPart "signed:" rest
    (by decide) (List.cons_ne_nil _ _) flag (by decide)
  simp [fieldRegex, line, first, second, third, last]

/-- The field that is read. -/
def field (decl : FieldDecl) : EventField :=
  ⟨String.ofList decl.name, decl.offset.value, decl.size.value⟩

/-- The fields at the start of every record. -/
def IsCommon (decl : FieldDecl) : Prop :=
  startsWith (String.ofList decl.name) "common_" = true

instance (decl : FieldDecl) : Decidable decl.IsCommon :=
  inferInstanceAs (Decidable (_ = _))

/-- The fields that `parse_format_line` leaves out. -/
def Skipped (decl : FieldDecl) : Prop := decl.Flexible ∨ decl.IsCommon

instance (decl : FieldDecl) : Decidable decl.Skipped :=
  inferInstanceAs (Decidable (_ ∨ _))

theorem parseFormatLine_line :
    parseFormatLine (String.ofList decl.line) =
      .ok (if decl.Skipped then none else some decl.field) := by
  have number : ∀ numeral : Numeral 10, numeral.value < 2 ^ 32 →
      stol numeral.digits = .ok numeral.value := fun numeral small =>
    if_pos (show ofDigits 10 numeral.digits < 2 ^ 63 from small.trans (by decide))
  rw [parseFormatLine, String.toList_ofList, fieldRegex_line]
  simp only [number _ decl.offset_lt, number _ decl.size_lt,
    typeNameRegex_param]
  by_cases flexible : decl.Flexible
  · simp only [if_pos flexible, if_pos (show decl.Skipped from .inl flexible)]
    rfl
  · by_cases common : decl.IsCommon
    · simp only [if_neg flexible, if_pos (show decl.Skipped from .inr common)]
      exact congrArg Except.ok (if_pos common)
    · have kept : ¬ decl.Skipped := not_or.mpr ⟨flexible, common⟩
      rw [if_neg kept]
      simp only [if_neg flexible]
      exact congrArg Except.ok (if_neg common)

end FieldDecl

/-- A line of a format file.  Only the lines of fields are indented. -/
inductive FormatLine where
  | field (decl : FieldDecl)
  | other (text : List Char)
      (unindented : ∀ c ∈ text.head?, isSpace c = false)

namespace FormatLine

def text : FormatLine → String
  | .field decl => String.ofList decl.line
  | .other text _ => String.ofList text

def decl : FormatLine → Option FieldDecl
  | .field decl => some decl
  | .other _ _ => none

end FormatLine

/-- The fields that `fields_` has of a format. -/
def parsedFields (lines : List FormatLine) : List EventField :=
  ((lines.filterMap FormatLine.decl).filter fun decl =>
    ¬ decl.Skipped).map FieldDecl.field

theorem parseFormatLine_other (text : List Char)
    (unindented : ∀ c ∈ text.head?, isSpace c = false) :
    parseFormatLine (String.ofList text) = .ok none := by
  have noMatch : fieldRegex text = none := by
    simp [fieldRegex, fieldPart, many1_eq_none unindented]
  rw [parseFormatLine, String.toList_ofList, noMatch]

namespace TracepointEventAttr

theorem parseLines_text (lines : List FormatLine) (fields : List EventField) :
    parseLines (lines.map FormatLine.text) fields =
      .ok (fields ++ parsedFields lines) := by
  induction lines generalizing fields with
  | nil => simp [parseLines, parsedFields]
  | cons line lines induction =>
      cases line with
      | other text unindented =>
          have parsed := parseFormatLine_other text unindented
          simp only [List.map_cons, FormatLine.text, parseLines, parsed]
          exact (induction (fields ++ [])).trans (by
            rw [List.append_nil]
            rfl)
      | field decl =>
          have parsed := decl.parseFormatLine_line
          simp only [List.map_cons, FormatLine.text, parseLines, parsed]
          refine (induction _).trans (congrArg Except.ok ?_)
          by_cases skipped : decl.Skipped
          · simp [parsedFields, FormatLine.decl, skipped]
          · simp [parsedFields, FormatLine.decl, skipped]

theorem parseFormat_ok (formats : String → List FormatLine) (name : String) :
    parseFormat (fun path => (formats path).map FormatLine.text) name =
      .ok ⟨slashed name, parsedFields (formats (slashed name))⟩ := by
  rw [parseFormat, parseLines_text]
  rfl

end TracepointEventAttr

end Lo2s
