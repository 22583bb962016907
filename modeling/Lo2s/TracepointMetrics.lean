import Lo2s.Foundation.FiniteMap
import Lo2s.Foundation.LittleEndian
import Lo2s.Foundation.Run
import Lo2s.TracepointFormat

/-!
# Tracepoint metrics

The fields of a tracepoint that have the size of an integer are the members of
its metric class, and their values in a record are the values of a metric
event.  Both are filtered out of `fields()`, one when the class is defined and
the other for each record.
-/

namespace Lo2s

open Foundation

/-- `otf2::common::metric_mode` -/
inductive MetricMode where
  | accumulatedStart
  | accumulatedLast
  | absolutePoint
  | absoluteNext
  deriving DecidableEq, Repr

/-- `otf2::common::type`, as far as metrics use it. -/
inductive MetricType where
  | int64
  | uint64
  | double
  deriving DecidableEq, Repr

structure MetricMember where
  name : String
  description : String
  mode : MetricMode
  valueType : MetricType
  unit : String
  deriving DecidableEq, Repr

/-- The metric classes in the registry, under the names of their events. -/
abbrev MetricClasses := FiniteMap String (List MetricMember)

namespace TracepointEventAttr

/-- The member for a field. -/
def member (event : TracepointEventAttr) (field : EventField) : MetricMember where
  name := event.name ++ "::" ++ field.name
  description := "?"
  mode := .absoluteNext
  valueType := .int64
  unit := "#"

/-- The members that a new metric class gets. -/
def members (event : TracepointEventAttr) : List MetricMember :=
  (event.fields.filter EventField.isInteger).map event.member

end TracepointEventAttr

/-- `Trace::tracepoint_metric_class`. -/
def tracepointMetricClass (event : TracepointEventAttr)
    (classes : MetricClasses) : MetricClasses × List MetricMember :=
  match classes.lookup event.name with
  | some members => (classes, members)
  | none => (classes.insert event.name event.members, event.members)

/-- `RecordDynamicFormat`; `size_` is the number of bytes. -/
structure RecordDynamicFormat where
  rawData : List UInt8

namespace RecordDynamicFormat

/-- The number in some bytes of a record. -/
def stored (record : RecordDynamicFormat) (offset width : Nat) : Nat :=
  ofLittleEndian ((record.rawData.drop offset).take width)

/-- `_get` for the signed type of some width. -/
def getSigned (width : Nat) (offset : Int) (record : RecordDynamicFormat) :
    Except Failure Int :=
  if offset < 0 then .error (.assertion "offset >= 0")
  else if record.rawData.length < offset.toNat + width then
    .error (.assertion "offset + sizeof(TT) <= size_")
  else .ok (Int.bmod (record.stored offset.toNat width) (256 ^ width))

def get (field : EventField) (record : RecordDynamicFormat) :
    Except Failure UInt64 :=
  match field.size with
  | 1 => (record.getSigned 1 field.offset).map UInt64.ofInt
  | 2 => (record.getSigned 2 field.offset).map UInt64.ofInt
  | 4 => (record.getSigned 4 field.offset).map UInt64.ofInt
  | 8 => (record.getSigned 8 field.offset).map UInt64.ofInt
  | _ => .ok 0

end RecordDynamicFormat

/-- `RecordSampleType`. -/
structure TracepointRecord where
  time : UInt64
  rawData : RecordDynamicFormat

/-- `otf2::event::metric`. -/
structure MetricEvent where
  timestamp : UInt64
  rawValues : List UInt64

/-- `tracepoint::Writer`, with the metric events it has written. -/
structure TracepointWriter where
  event : TracepointEventAttr
  timeConverter : UInt64 → UInt64
  metricEvent : MetricEvent
  written : List MetricEvent

namespace TracepointWriter

/-- The constructor.  A metric event has room for a value of each member of its
class. -/
def init (event : TracepointEventAttr) (members : List MetricMember)
    (timeConverter : UInt64 → UInt64) (genesis : UInt64) : TracepointWriter where
  event := event
  timeConverter := timeConverter
  metricEvent := ⟨genesis, List.replicate members.length 0⟩
  written := []

/-- The loop of `handle`. -/
def fill (record : RecordDynamicFormat) : List EventField → Nat →
    List UInt64 → Except Failure (List UInt64)
  | [], _, values => .ok values
  | field :: fields, index, values =>
      if field.isInteger then do
        let value ← record.get field
        if index < values.length then
          fill record fields (index + 1) (values.set index value)
        else .error .invalidAccess
      else fill record fields index values

def handle (w : TracepointWriter) (sample : TracepointRecord) :
    Except Failure TracepointWriter := do
  let values ← fill sample.rawData w.event.fields 0 w.metricEvent.rawValues
  let metricEvent : MetricEvent := ⟨w.timeConverter sample.time, values⟩
  return { w with
    metricEvent := metricEvent
    written := w.written ++ [metricEvent] }

end TracepointWriter

/-- Metric classes for some tracepoints. -/
def defineClasses (formats : String → List String) : List String →
    MetricClasses → Except Failure MetricClasses
  | [], classes => .ok classes
  | name :: names, classes => do
      let event ← TracepointEventAttr.parseFormat formats name
      defineClasses formats names (tracepointMetricClass event classes).1

/-- The metric class of a tracepoint and the writer that has handled some
records of it.  There may be metric classes already. -/
def recordTracepoint (formats : String → List String) (earlier : List String)
    (name : String) (timeConverter : UInt64 → UInt64) (genesis : UInt64)
    (records : List TracepointRecord) :
    Except Failure (List MetricMember × TracepointWriter) := do
  let classes ← defineClasses formats earlier ∅
  let event ← TracepointEventAttr.parseFormat formats name
  let members := (tracepointMetricClass event classes).2
  let writer ← run TracepointWriter.handle
    (.init event members timeConverter genesis) records
  return (members, writer)

/-- The value that is written for a field. -/
def RecordDynamicFormat.value (record : RecordDynamicFormat)
    (field : EventField) : UInt64 :=
  UInt64.ofInt
    (Int.bmod (record.stored field.offset.toNat field.size) (256 ^ field.size))

/-- A field lies inside a record. -/
def EventField.Inside (field : EventField) (record : RecordDynamicFormat) :
    Prop :=
  0 ≤ field.offset ∧ field.offset.toNat + field.size ≤ record.rawData.length

theorem isIntegerSize_iff {size : Nat} :
    isIntegerSize size = true ↔ size = 1 ∨ size = 2 ∨ size = 4 ∨ size = 8 := by
  simp [isIntegerSize, or_assoc]

theorem RecordDynamicFormat.getSigned_inside {record : RecordDynamicFormat}
    {field : EventField} (inside : field.Inside record) :
    record.getSigned field.size field.offset =
      .ok (Int.bmod (record.stored field.offset.toNat field.size)
        (256 ^ field.size)) := by
  rw [getSigned, if_neg (not_lt.mpr inside.1), if_neg (not_lt.mpr inside.2)]

theorem RecordDynamicFormat.get_inside {record : RecordDynamicFormat}
    {field : EventField} (integer : field.isInteger = true)
    (inside : field.Inside record) :
    record.get field = .ok (record.value field) := by
  have signed := getSigned_inside inside
  rcases isIntegerSize_iff.mp integer with size | size | size | size <;>
    · rw [size] at signed
      rw [get, value, size]
      simp only [signed]
      rfl

namespace TracepointWriter

theorem fill_inside {record : RecordDynamicFormat} {fields : List EventField}
    (inside : ∀ field ∈ fields, field.isInteger = true → field.Inside record)
    (done : List UInt64) {rest : List UInt64}
    (room : rest.length = (fields.filter EventField.isInteger).length) :
    fill record fields done.length (done ++ rest) =
      .ok (done ++ (fields.filter EventField.isInteger).map record.value) := by
  induction fields generalizing done rest with
  | nil =>
      have empty : rest = [] := List.length_eq_zero_iff.mp room
      rw [empty]
      rfl
  | cons field fields induction =>
      have later := fun other member =>
        inside other (List.mem_cons_of_mem field member)
      by_cases integer : field.isInteger = true
      · have read := RecordDynamicFormat.get_inside integer
          (inside field List.mem_cons_self integer)
        rw [List.filter_cons_of_pos integer, List.length_cons] at room
        cases rest with
        | nil => cases room
        | cons old rest =>
            have tail := induction later (done ++ [record.value field])
              (Nat.succ.inj room)
            rw [List.length_append, List.append_assoc] at tail
            have step : fill record (field :: fields) done.length
                (done ++ old :: rest) =
                fill record fields (done.length + 1)
                  (done ++ record.value field :: rest) := by
              rw [fill, if_pos integer, read]
              simp [bind, Except.bind]
            rw [step, List.filter_cons_of_pos integer]
            simpa using tail
      · rw [List.filter_cons_of_neg integer] at room ⊢
        rw [fill, if_neg integer]
        exact induction later done room

/-- The metric event for a record. -/
def eventOf (w : TracepointWriter) (sample : TracepointRecord) : MetricEvent :=
  ⟨w.timeConverter sample.time,
    (w.event.fields.filter EventField.isInteger).map sample.rawData.value⟩

theorem handle_inside {w : TracepointWriter} {sample : TracepointRecord}
    (room : w.metricEvent.rawValues.length =
      (w.event.fields.filter EventField.isInteger).length)
    (inside : ∀ field ∈ w.event.fields, field.isInteger = true →
      field.Inside sample.rawData) :
    w.handle sample = .ok { w with
      metricEvent := w.eventOf sample
      written := w.written ++ [w.eventOf sample] } := by
  have filled := fill_inside inside [] room
  rw [List.nil_append, List.length_nil, List.nil_append] at filled
  rw [handle, filled]
  rfl

theorem run_handle {w : TracepointWriter} {records : List TracepointRecord}
    (room : w.metricEvent.rawValues.length =
      (w.event.fields.filter EventField.isInteger).length)
    (inside : ∀ sample ∈ records, ∀ field ∈ w.event.fields,
      field.isInteger = true → field.Inside sample.rawData) :
    ∃ next, run handle w records = .ok next ∧
      next.written = w.written ++ records.map w.eventOf := by
  induction records generalizing w with
  | nil => exact ⟨w, rfl, by rw [List.map_nil, List.append_nil]⟩
  | cons sample records induction =>
      have step := handle_inside room (inside sample List.mem_cons_self)
      have room' : (w.eventOf sample).rawValues.length =
          (w.event.fields.filter EventField.isInteger).length := by
        rw [eventOf, List.length_map]
      obtain ⟨next, later, written⟩ := induction
        (w := { w with
          metricEvent := w.eventOf sample
          written := w.written ++ [w.eventOf sample] }) room'
        fun other member => inside other (List.mem_cons_of_mem sample member)
      refine ⟨next, ?_, ?_⟩
      · rw [run, step]
        exact later
      · rw [written, List.append_assoc]
        rfl

end TracepointWriter

/-- The tracepoint with the fields of its format. -/
def eventOfFormat (formats : String → List FormatLine) (path : String) :
    TracepointEventAttr := ⟨path, parsedFields (formats path)⟩

/-- Each metric class has the members of its tracepoint. -/
def ClassesOf (formats : String → List FormatLine) (classes : MetricClasses) :
    Prop :=
  ∀ path members, classes.lookup path = some members →
    members = (eventOfFormat formats path).members

variable {formats : String → List FormatLine} {classes : MetricClasses}

theorem ClassesOf.empty : ClassesOf formats ∅ := by
  intro path members found
  rw [AList.lookup_empty] at found
  cases found

theorem ClassesOf.tracepointMetricClass (known : ClassesOf formats classes)
    (path : String) :
    ClassesOf formats
        (tracepointMetricClass (eventOfFormat formats path) classes).1 ∧
      (tracepointMetricClass (eventOfFormat formats path) classes).2 =
        (eventOfFormat formats path).members := by
  have name : (eventOfFormat formats path).name = path := rfl
  rw [Lo2s.tracepointMetricClass, name]
  cases found : classes.lookup path with
  | some members => exact ⟨known, known path members found⟩
  | none =>
      refine ⟨fun other members inserted => ?_, rfl⟩
      rw [FiniteMap.lookup_insert] at inserted
      split_ifs at inserted with same
      · rw [← Option.some.inj inserted, same]
      · exact known other members inserted

theorem ClassesOf.defineClasses (known : ClassesOf formats classes)
    (names : List String) :
    ∃ next, defineClasses (fun path => (formats path).map FormatLine.text)
        names classes = .ok next ∧ ClassesOf formats next := by
  induction names generalizing classes with
  | nil => exact ⟨classes, rfl, known⟩
  | cons name names induction =>
      obtain ⟨next, defined, nextKnown⟩ :=
        induction (known.tracepointMetricClass (slashed name)).1
      refine ⟨next, ?_, nextKnown⟩
      rw [Lo2s.defineClasses, TracepointEventAttr.parseFormat_ok]
      exact defined

/-- The fields of a format that are to be recorded. -/
def integerFields (lines : List FormatLine) : List FieldDecl :=
  (lines.filterMap FormatLine.decl).filter fun decl =>
    ¬ decl.IsCommon ∧ isIntegerSize decl.size.value = true

namespace FieldDecl

def stored (decl : FieldDecl) (record : RecordDynamicFormat) : Nat :=
  record.stored decl.offset.value decl.size.value

/-- The integer that a record has in a field. -/
def integer (decl : FieldDecl) (record : RecordDynamicFormat) : Int :=
  if decl.signed then
    Int.bmod (decl.stored record) (256 ^ decl.size.value)
  else decl.stored record

/-- An unsigned integer that is small enough to be read as a signed one; a
value of eight bytes keeps all of them anyway. -/
def Readable (decl : FieldDecl) (record : RecordDynamicFormat) : Prop :=
  decl.signed = false → decl.size.value ≠ 8 →
    2 * decl.stored record < 256 ^ decl.size.value

end FieldDecl

/-- The members and values are those of the declared fields, in their order. -/
structure Faithful (event : String) (decls : List FieldDecl)
    (records : List TracepointRecord) (members : List MetricMember)
    (written : List MetricEvent) : Prop where
  members : members.map MetricMember.name =
    decls.map fun decl => event ++ "::" ++ String.ofList decl.name
  values : written.map MetricEvent.rawValues =
    records.map fun sample =>
      decls.map fun decl => UInt64.ofInt (decl.integer sample.rawData)

/-- The fields that are recorded are the declared ones without the flexible
arrays. -/
theorem parsedFields_integer (lines : List FormatLine) :
    (parsedFields lines).filter EventField.isInteger =
      ((integerFields lines).filter fun decl => ¬ decl.Flexible).map
        FieldDecl.field := by
  rw [parsedFields, integerFields, List.filter_map, List.filter_filter,
    List.filter_filter]
  congr 2
  funext decl
  have same : (EventField.isInteger ∘ FieldDecl.field) decl =
      isIntegerSize decl.size.value := rfl
  rw [same]
  by_cases flexible : decl.Flexible <;> by_cases common : decl.IsCommon <;>
    simp [FieldDecl.Skipped, flexible, common]

theorem stored_lt (record : RecordDynamicFormat) (offset width : Nat) :
    record.stored offset width < 256 ^ width := by
  have bound := ofLittleEndian_lt ((record.rawData.drop offset).take width)
  refine bound.trans_le (Nat.pow_le_pow_right (by decide) ?_)
  rw [List.length_take]
  exact min_le_left _ _

/-- A number keeps its bytes when it is read as a signed one if it is in the
lower half of its type, or if its type has all the bytes. -/
theorem ofInt_bmod {stored modulus : Nat} (fits : stored < modulus)
    (even : modulus % 2 = 0) :
    UInt64.ofInt (Int.bmod stored modulus) = UInt64.ofInt stored ↔
      2 * stored < modulus ∨ UInt64.ofInt modulus = 0 := by
  have reduced : (stored : Int) % modulus = stored :=
    Int.emod_eq_of_lt (by omega) (by omega)
  by_cases small : 2 * stored < modulus
  · have same : Int.bmod stored modulus = stored := by
      rw [Int.bmod_eq_emod_of_lt (by omega), reduced]
    simp [same, small]
  · have wrapped : Int.bmod stored modulus = stored + -modulus := by
      rw [Int.bmod_neg _ _ (by omega), reduced, Int.sub_eq_add_neg]
    rw [wrapped, UInt64.ofInt_add, UInt64.ofInt_neg]
    simp [small]

/-- The value that is written is the integer of the field exactly if it can be
read as a signed one. -/
theorem FieldDecl.value_eq_iff {decl : FieldDecl}
    (size : isIntegerSize decl.size.value = true)
    (record : RecordDynamicFormat) :
    record.value decl.field = UInt64.ofInt (decl.integer record) ↔
      decl.Readable record := by
  have fits : decl.stored record < 256 ^ decl.size.value := stored_lt _ _ _
  have value : record.value decl.field =
      UInt64.ofInt (Int.bmod (decl.stored record) (256 ^ decl.size.value)) := rfl
  rw [value, FieldDecl.integer, FieldDecl.Readable]
  cases decl.signed with
  | true => simp
  | false =>
      obtain ⟨even, whole⟩ : 256 ^ decl.size.value % 2 = 0 ∧
          (UInt64.ofInt ((256 ^ decl.size.value : Nat) : Int) = 0 ↔
            decl.size.value = 8) := by
        rcases isIntegerSize_iff.mp size with size | size | size | size <;>
          · rw [size]
            decide
      rw [if_neg Bool.false_ne_true, ofInt_bmod fits even, whole]
      tauto

section

variable {path : String}

/-- The members are in order as soon as no field is a flexible array. -/
theorem members_iff :
    (eventOfFormat formats path).members.map MetricMember.name =
        ((integerFields (formats path)).map fun decl =>
          path ++ "::" ++ String.ofList decl.name) ↔
      ∀ decl ∈ integerFields (formats path), ¬ decl.Flexible := by
  let decls := integerFields (formats path)
  have members : (eventOfFormat formats path).members.map MetricMember.name =
      (decls.filter fun decl => ¬ decl.Flexible).map fun decl =>
        path ++ "::" ++ String.ofList decl.name := by
    rw [TracepointEventAttr.members, eventOfFormat, parsedFields_integer,
      List.map_map, List.map_map]
    rfl
  rw [members]
  constructor
  · intro same decl member
    have count := congrArg List.length same
    rw [List.length_map, List.length_map] at count
    exact of_decide_eq_true
      (List.length_filter_eq_length_iff.mp count decl member)
  · intro none
    rw [List.filter_eq_self.mpr fun decl member =>
      decide_eq_true (none decl member)]

/-- The values are right as soon as every unsigned one can be read as a signed
one. -/
theorem values_iff (records : List TracepointRecord)
    (nonFlexible : ∀ decl ∈ integerFields (formats path), ¬ decl.Flexible) :
    (records.map fun sample =>
        ((eventOfFormat formats path).fields.filter EventField.isInteger).map
          sample.rawData.value) =
      (records.map fun sample => (integerFields (formats path)).map fun decl =>
        UInt64.ofInt (decl.integer sample.rawData)) ↔
      ∀ decl ∈ integerFields (formats path), ∀ sample ∈ records,
        decl.Readable sample.rawData := by
  have fields : (eventOfFormat formats path).fields.filter EventField.isInteger =
      (integerFields (formats path)).map FieldDecl.field := by
    rw [eventOfFormat, parsedFields_integer, List.filter_eq_self.mpr
      fun decl member => decide_eq_true (nonFlexible decl member)]
  have integer : ∀ decl ∈ integerFields (formats path),
      isIntegerSize decl.size.value = true := fun decl member =>
    (of_decide_eq_true (List.mem_filter.mp member).2).2
  simp only [fields, List.map_map, List.map_inj_left]
  constructor
  · intro same decl declared sample member
    exact (decl.value_eq_iff (integer decl declared) _).mp
      (same sample member decl declared)
  · intro readable sample member decl declared
    exact (decl.value_eq_iff (integer decl declared) _).mpr
      (readable decl declared sample member)

end

/-- The values of a tracepoint are its fields exactly if no field is a flexible
array and no unsigned field has its highest bit set. -/
theorem recordTracepoint_faithful_iff (formats : String → List FormatLine)
    (earlier : List String) (name : String) (timeConverter : UInt64 → UInt64)
    (genesis : UInt64) (records : List TracepointRecord)
    (long : ∀ sample ∈ records,
      ∀ decl ∈ integerFields (formats (slashed name)),
        decl.offset.value + decl.size.value ≤ sample.rawData.rawData.length) :
    ∃ members writer,
      recordTracepoint (fun path => (formats path).map FormatLine.text) earlier
          name timeConverter genesis records = .ok (members, writer) ∧
        (Faithful (slashed name) (integerFields (formats (slashed name)))
            records members writer.written ↔
          ∀ decl ∈ integerFields (formats (slashed name)),
            ¬ decl.Flexible ∧
              ∀ sample ∈ records, decl.Readable sample.rawData) := by
  let path := slashed name
  have empty : ClassesOf formats ∅ := ClassesOf.empty
  obtain ⟨classes, defined, known⟩ := empty.defineClasses earlier
  have members := (known.tracepointMetricClass path).2
  let start := TracepointWriter.init (eventOfFormat formats path)
    (eventOfFormat formats path).members timeConverter genesis
  have inside : ∀ sample ∈ records, ∀ field ∈ start.event.fields,
      field.isInteger = true → field.Inside sample.rawData := by
    intro sample member field declared integer
    have kept : field ∈ (parsedFields (formats path)).filter
        EventField.isInteger := List.mem_filter.mpr ⟨declared, integer⟩
    rw [parsedFields_integer] at kept
    obtain ⟨decl, declMember, rfl⟩ := List.mem_map.mp kept
    exact ⟨Int.natCast_nonneg _,
      long sample member decl (List.mem_filter.mp declMember).1⟩
  have room : start.metricEvent.rawValues.length =
      (start.event.fields.filter EventField.isInteger).length := by
    simp [start, TracepointWriter.init, TracepointEventAttr.members]
  obtain ⟨writer, handled, written⟩ := start.run_handle room inside
  have values : writer.written.map MetricEvent.rawValues =
      records.map fun sample =>
        ((eventOfFormat formats path).fields.filter EventField.isInteger).map
          sample.rawData.value := by
    rw [written]
    exact List.map_map
  refine ⟨(eventOfFormat formats path).members, writer, ?_, ?_⟩
  · have recorded : recordTracepoint
          (fun path => (formats path).map FormatLine.text) earlier name
          timeConverter genesis records =
        (run TracepointWriter.handle start records).bind fun writer =>
          .ok ((eventOfFormat formats path).members, writer) := by
      rw [recordTracepoint, defined, TracepointEventAttr.parseFormat_ok]
      simp only [start, ← members]
      rfl
    rw [recorded, handled]
    rfl
  · constructor
    · intro faithful decl member
      have nonFlexible := members_iff.mp faithful.members
      exact ⟨nonFlexible decl member, (values_iff records nonFlexible).mp
        (values.symm.trans faithful.values) decl member⟩
    · intro readable
      have nonFlexible := fun decl member => (readable decl member).1
      exact ⟨members_iff.mpr nonFlexible, values.trans
        ((values_iff records nonFlexible).mpr
          fun decl member => (readable decl member).2)⟩

/-- The field `state` of `power:cpu_idle`. -/
def stateField : FieldDecl where
  type := ['u', '3', '2']
  name := ['s', 't', 'a', 't', 'e']
  length := none
  offset := ⟨['8'], by decide, List.forall_mem_singleton.mpr rfl⟩
  size := ⟨['4'], by decide, List.forall_mem_singleton.mpr rfl⟩
  signed := false
  type_text := by simp [Scan.endsLine]
  name_text := ⟨by decide, by simp [inName]⟩
  length_text := nofun
  offset_lt := by decide
  size_lt := by decide

/-- A CPU leaves its idle state: `state` is `PWR_EVENT_EXIT`. -/
def idleExit : TracepointRecord where
  time := 5
  rawData := ⟨[1, 2, 0, 0, 7, 0, 0, 0, 255, 255, 255, 255, 3, 0, 0, 0]⟩

theorem recordTracepoint_faithful_iff_idle :
    ∃ members writer,
      recordTracepoint (fun _ => [(FormatLine.field stateField).text])
          ["power:cpu_idle"] "power:cpu_idle" id 0 [idleExit] =
        .ok (members, writer) ∧
        (Faithful "power/cpu_idle" [stateField] [idleExit] members
            writer.written ↔
          ∀ decl ∈ [stateField], ¬ decl.Flexible ∧
            ∀ sample ∈ [idleExit], decl.Readable sample.rawData) :=
  recordTracepoint_faithful_iff (fun _ => [.field stateField])
    ["power:cpu_idle"] "power:cpu_idle" id 0 [idleExit] (by decide +kernel)

/-- An unsigned value with the highest bit set is written as a negative one. -/
theorem unsigned_misread :
    ∃ members writer,
      recordTracepoint (fun _ => [(FormatLine.field stateField).text]) []
          "power:cpu_idle" id 0 [idleExit] = .ok (members, writer) ∧
        writer.written.map MetricEvent.rawValues = [[0xffffffffffffffff]] ∧
        ¬ Faithful "power/cpu_idle" [stateField] [idleExit] members
          writer.written := by
  refine ⟨_, _, rfl, by decide +kernel, fun faithful => ?_⟩
  have values := faithful.values
  revert values
  decide +kernel
end Lo2s
