import Lo2s.EventReader
import Lo2s.Foundation.Run

/-!
# Delivery of perf events

From tail to head, the data area holds the records that are pending, one
directly behind the other.  The reader always finds the first of them, whether
it runs over the end of the area or not, and moves the tail behind it; what the
kernel appends meanwhile does not touch it.
-/

namespace Lo2s

open Foundation

/-- The bytes of some records, one behind the other. -/
def PerfRecord.flat (records : List PerfRecord) : List UInt8 :=
  (records.map PerfRecord.bytes).flatten

namespace PerfRecord

@[simp] theorem flat_nil : flat [] = [] := rfl

@[simp] theorem flat_cons (record : PerfRecord) (records : List PerfRecord) :
    flat (record :: records) = record.bytes ++ flat records := rfl

@[simp] theorem flat_append (first second : List PerfRecord) :
    flat (first ++ second) = flat first ++ flat second := by
  simp [flat]

theorem flat_aligned (records : List PerfRecord) :
    (flat records).length % 8 = 0 := by
  induction records with
  | nil => rfl
  | cons record records induction =>
      have aligned := record.aligned
      rw [flat_cons, List.length_append]
      omega

theorem small (record : PerfRecord) : record.bytes.length < 65536 := by
  have two : ((record.bytes.drop 6).take 2).length ≤ 2 :=
    List.length_take_le ..
  calc
    record.bytes.length = _ := record.size_eq.symm
    _ < 256 ^ ((record.bytes.drop 6).take 2).length := ofLittleEndian_lt _
    _ ≤ 256 ^ 2 := Nat.pow_le_pow_right (by decide) two

end PerfRecord

namespace PerfMapping

theorem dataSize_toNat (mapping : PerfMapping) :
    mapping.dataSize.toNat = mapping.mmapPages.toNat * mapping.pageSize.toNat := by
  have mapped := mapping.mapped
  rw [dataSize, UInt64.toNat_mul]
  exact Nat.mod_eq_of_lt (by omega)

theorem dataSize_aligned (mapping : PerfMapping) :
    mapping.dataSize.toNat % 8 = 0 := by
  rw [dataSize_toNat, Nat.mul_mod, mapping.aligned, Nat.mul_zero, Nat.zero_mod]

end PerfMapping

namespace EventReader

/-- The records that have been taken out, and those that are pending. -/
structure Layout (r : EventReader) (before pending : List PerfRecord) :
    Prop where
  tail : r.dataTail.toNat = (PerfRecord.flat before).length
  head : r.dataHead.toNat =
    (PerfRecord.flat before).length + (PerfRecord.flat pending).length
  fits : (PerfRecord.flat pending).length ≤ r.size
  stored : r.data.window r.size r.dataTail.toNat
    (PerfRecord.flat pending).length = PerfRecord.flat pending

/-- A pointer to the first pending record. -/
def Points (r : EventReader) (record : PerfRecord) : RecordPointer → Prop
  | .inData index =>
      index = r.dataTail.toNat % r.size ∧
        index + record.bytes.length ≤ r.size
  | .inCopy =>
      (List.range record.bytes.length).map r.eventCopy = record.bytes

section

variable {r : EventReader} {before pending : List PerfRecord}
  {record : PerfRecord}

theorem size_positive (r : EventReader) : 0 < r.size := by
  rw [size, PerfMapping.dataSize_toNat]
  exact r.mapping.positive

theorem size_aligned (r : EventReader) : r.size % 8 = 0 :=
  r.mapping.dataSize_aligned

theorem Layout.empty_iff (layout : Layout r before pending) :
    r.empty = true ↔ pending = [] := by
  have tail := layout.tail
  have head := layout.head
  rw [empty, beq_iff_eq, ← UInt64.toNat_inj]
  cases pending with
  | nil => simp_all
  | cons record pending =>
      have large := record.hasHeader
      rw [PerfRecord.flat_cons, List.length_append] at head
      simp only [reduceCtorEq, iff_false]
      omega

theorem Layout.first (layout : Layout r before (record :: pending)) :
    r.data.window r.size r.dataTail.toNat record.bytes.length =
      record.bytes := by
  have stored := layout.stored
  rw [PerfRecord.flat_cons, List.length_append, Circular.window_add] at stored
  exact (List.append_inj stored (by simp)).1

theorem Layout.append (layout : Layout r before pending)
    (small : r.dataHead.toNat + record.bytes.length < 2 ^ 64)
    (free : r.dataHead.toNat + record.bytes.length ≤
      r.dataTail.toNat + r.size) :
    Layout { r with
      data := r.data.write r.size r.dataHead.toNat record.bytes
      dataHead := r.dataHead + UInt64.ofNat record.bytes.length }
      before (pending ++ [record]) := by
  have head := layout.head
  have tail := layout.tail
  have length : (PerfRecord.flat (pending ++ [record])).length =
      (PerfRecord.flat pending).length + record.bytes.length := by simp
  constructor
  · exact tail
  · rw [UInt64.toNat_add, UInt64.toNat_ofNat', length]
    omega
  · show _ ≤ r.size
    rw [length]
    omega
  · show (r.data.write r.size r.dataHead.toNat record.bytes).window r.size
      r.dataTail.toNat _ = _
    have next : r.dataTail.toNat + (PerfRecord.flat pending).length =
        r.dataHead.toNat := by omega
    rw [length, Circular.window_add, next,
      Circular.window_write_of_disjoint _ (by omega) (by omega),
      Circular.window_write_self _ _ (by omega), layout.stored]
    simp

theorem Layout.part (layout : Layout r before (record :: pending))
    {offset len : Nat} (inside : offset + len ≤ record.bytes.length) :
    r.data.window r.size (r.dataTail.toNat % r.size + offset) len =
      (record.bytes.drop offset).take len := by
  have whole := layout.first
  rw [← Circular.window_mod] at whole
  rw [← whole, Circular.drop_window _ _ _ (by omega),
    Circular.take_window _ _ _ (by omega)]

theorem Layout.load_eq (layout : Layout r before (record :: pending))
    {pointer : RecordPointer} (points : Points r record pointer)
    {offset len : Nat} (inside : offset + len ≤ record.bytes.length) :
    r.load pointer offset len =
      .ok ((record.bytes.drop offset).take len) := by
  have small := record.small
  cases pointer with
  | inData index =>
      obtain ⟨rfl, within⟩ := points
      rw [load, if_pos (by omega), layout.part inside]
  | inCopy =>
      have copied : (List.range record.bytes.length).map r.eventCopy =
        record.bytes := points
      rw [load, if_pos (by unfold perfSampleMaxSize; omega), ← copied]
      congr 1
      apply List.ext_getElem
      · simp
        omega
      · intro i _ _
        simp

theorem Layout.loadSize_eq (layout : Layout r before (record :: pending))
    {pointer : RecordPointer} (points : Points r record pointer) :
    r.loadSize pointer = .ok record.bytes.length := by
  have header := record.hasHeader
  rw [loadSize, layout.load_eq points (by omega), ← record.size_eq]
  rfl

theorem Layout.loadType_eq (layout : Layout r before (record :: pending))
    {pointer : RecordPointer} (points : Points r record pointer) :
    r.loadType pointer = .ok record.type := by
  have header := record.hasHeader
  rw [loadType, layout.load_eq points (by omega)]
  rfl

theorem Layout.loadField_eq (layout : Layout r before (record :: pending))
    {pointer : RecordPointer} (points : Points r record pointer)
    {offset : Nat} (inside : offset + 8 ≤ record.bytes.length) :
    r.loadField pointer offset = .ok (record.field offset) := by
  rw [loadField, layout.load_eq points inside]
  rfl

theorem Layout.eventCopy (layout : Layout r before pending)
    (eventCopy : Nat → UInt8) :
    Layout { r with eventCopy := eventCopy } before pending :=
  ⟨layout.tail, layout.head, layout.fits, layout.stored⟩

theorem Layout.get_spec (layout : Layout r before (record :: pending)) :
    ∃ pointer eventCopy,
      r.get = .ok (pointer, { r with eventCopy := eventCopy }) ∧
      Points { r with eventCopy := eventCopy } record pointer := by
  have head := layout.head
  have tail := layout.tail
  have fits := layout.fits
  have aligned := r.size_aligned
  have positive := r.size_positive
  have header := record.hasHeader
  have small := record.small
  rw [PerfRecord.flat_cons, List.length_append] at head fits
  have tailAligned := PerfRecord.flat_aligned before
  rw [← tail] at tailAligned
  -- Both assertions hold.
  have checked : r.checkPositions = .ok () := by
    rw [checkPositions, if_neg, if_neg]
    · have order : r.dataTail ≤ r.dataHead := by
        rw [UInt64.le_iff_toNat_le]
        omega
      rw [UInt64.lt_iff_toNat_lt, UInt64.toNat_sub_of_le _ _ order]
      unfold EventReader.size at fits
      omega
    · rw [UInt64.lt_iff_toNat_lt]
      omega
  have index : (r.dataTail % r.mapping.dataSize).toNat =
      r.dataTail.toNat % r.size := UInt64.toNat_mod ..
  have inside : r.dataTail.toNat % r.size < r.size := Nat.mod_lt _ positive
  have indexAligned : r.dataTail.toNat % r.size % 8 = 0 := by
    rw [Nat.mod_mod_of_dvd _ (Nat.dvd_of_mod_eq_zero aligned), tailAligned]
  -- The header does not run over the end.
  have length : r.loadSize (.inData (r.dataTail.toNat % r.size)) =
      .ok record.bytes.length := by
    rw [loadSize, load, if_pos (by omega), layout.part (by omega),
      ← record.size_eq]
    rfl
  by_cases around :
      r.size < r.dataTail.toNat % r.size + record.bytes.length
  · refine ⟨.inCopy,
      r.copied (r.dataTail.toNat % r.size) record.bytes.length, ?_, ?_⟩
    · simp only [get, checked, index, length, bind, Except.bind]
      rw [if_pos around, copyAround, if_pos (by
        unfold perfSampleMaxSize
        omega)]
      rfl
    · have whole := layout.first
      rw [← Circular.window_mod] at whole
      refine Eq.trans (List.map_congr_left fun i member => ?_) whole
      have short : i < record.bytes.length := List.mem_range.mp member
      simp only [copied]
      generalize r.dataTail.toNat % r.size = start at inside ⊢
      split_ifs with front
      · rw [Nat.mod_eq_of_lt (by omega)]
      · rw [Nat.mod_eq_sub_mod (by omega), Nat.mod_eq_of_lt (by omega)]
        congr 1
        omega
  · refine ⟨.inData (r.dataTail.toNat % r.size), r.eventCopy, ?_, rfl, ?_⟩
    · simp only [get, checked, index, length, bind, Except.bind]
      rw [if_neg around]
      rfl
    · exact Nat.le_of_not_lt around

theorem Layout.pop_spec (layout : Layout r before (record :: pending)) :
    ∃ eventCopy dataTail,
      r.pop = .ok { r with
        eventCopy := eventCopy
        dataTail := dataTail } ∧
      Layout { r with
        eventCopy := eventCopy
        dataTail := dataTail } (before ++ [record]) pending := by
  obtain ⟨pointer, eventCopy, got, points⟩ := layout.get_spec
  have length := (layout.eventCopy eventCopy).loadSize_eq points
  have head := layout.head
  have tail := layout.tail
  have fits := layout.fits
  have stored := layout.stored
  rw [PerfRecord.flat_cons, List.length_append] at head fits stored
  have bound := r.dataHead.toNat_lt
  have advanced : (r.dataTail + UInt64.ofNat record.bytes.length).toNat =
      r.dataTail.toNat + record.bytes.length := by
    rw [UInt64.toNat_add, UInt64.toNat_ofNat']
    omega
  refine ⟨eventCopy, r.dataTail + UInt64.ofNat record.bytes.length, ?_, ?_⟩
  · simp only [pop, got, length, bind, Except.bind]
    rfl
  · constructor
    · simp only [PerfRecord.flat_append, PerfRecord.flat_cons,
        PerfRecord.flat_nil, List.append_nil, List.length_append]
      omega
    · simp only [PerfRecord.flat_append, PerfRecord.flat_cons,
        PerfRecord.flat_nil, List.append_nil, List.length_append]
      omega
    · show _ ≤ r.size
      omega
    · show r.data.window r.size _ _ = _
      rw [Circular.window_add] at stored
      rw [advanced]
      exact (List.append_inj stored (by simp)).2

end

end EventReader

namespace ReadSession

/-- What may happen: the kernel appends what fits behind the tail, as long as
fewer than 2 ^ 64 bytes have been appended in total; and outside of `read`,
`get` and `pop` are called while the buffer is not empty. -/
def Allowed (s : ReadSession) : ReadInput → Prop
  | .append record =>
      s.reader.dataHead.toNat + record.bytes.length < 2 ^ 64 ∧
        s.reader.dataHead.toNat + record.bytes.length ≤
          s.reader.dataTail.toNat + s.reader.size
  | .get => s.phase = .idle ∧ s.reader.empty = false
  | .pop => s.phase = .idle ∧ s.reader.empty = false
  | .read => s.phase = .idle
  | .advance _ => True

instance Allowed.decidable (s : ReadSession) :
    ∀ input, Decidable (s.Allowed input)
  | .append _ => inferInstanceAs (Decidable (_ ∧ _))
  | .get => inferInstanceAs (Decidable (_ ∧ _))
  | .pop => inferInstanceAs (Decidable (_ ∧ _))
  | .read => inferInstanceAs (Decidable (_ = _))
  | .advance _ => inferInstanceAs (Decidable True)

/-- The lost samples a record reports as it is dispatched. -/
def lostIn : Taken → UInt64
  | .dispatched (.countLost offset) bytes =>
      UInt64.ofNat (ofLittleEndian ((bytes.drop offset).take 8))
  | _ => 0

/-- Every record that `read` has dispatched is the one appended at its place,
byte for byte. -/
def Dispatched (hasLostSamples : Bool) (appended : List PerfRecord)
    (taken : List Taken) : Prop :=
  ∀ (position : Nat) way bytes,
    taken[position]? = some (.dispatched way bytes) →
      ∃ record, appended[position]? = some record ∧
        bytes = record.bytes ∧ way = dispatch hasLostSamples record.type

/-- Every record that `get` has found is the next one to be taken. -/
def Found (appended : List PerfRecord) (got : List (Nat × List UInt8)) : Prop :=
  ∀ (position : Nat) bytes, (position, bytes) ∈ got →
    ∃ record, appended[position]? = some record ∧ bytes = record.bytes

/-- The records are taken out once and in order, each is dispatched as it was
appended, and `get` finds the next one; the buffer is empty only when all of
them have been taken. -/
structure Delivered (hasLostSamples : Bool) (s : ReadSession) : Prop where
  bounded : s.taken.length ≤ s.appended.length
  dispatched : Dispatched hasLostSamples s.appended s.taken
  got : Found s.appended s.got
  exhausted : s.reader.empty = true → s.taken.length = s.appended.length
  order : s.reader.dataTail ≤ s.reader.dataHead
  lost : s.reader.lostSamples = (s.taken.map lostIn).sum.toInt64

/-- How many records the tail has passed. -/
def popped (s : ReadSession) : Nat :=
  match s.phase with
  | .handled _ => s.taken.length - 1
  | _ => s.taken.length

/-- What is known between two steps of the reader. -/
structure Sound (hasLostSamples : Bool) (s : ReadSession) : Prop where
  layout : s.reader.Layout (s.appended.take s.popped)
    (s.appended.drop s.popped)
  bounded : s.taken.length ≤ s.appended.length
  dispatched : Dispatched hasLostSamples s.appended s.taken
  got : Found s.appended s.got
  lost : s.reader.lostSamples = (s.taken.map lostIn).sum.toInt64
  phase : match s.phase with
    | .idle => True
    | .checking => True
    | .fetching => s.taken.length < s.appended.length
    | .fetched pointer => ∃ record,
        s.appended[s.taken.length]? = some record ∧
          s.reader.Points record pointer
    | .handled _ => 0 < s.taken.length

section

variable {hasLostSamples : Bool} {s : ReadSession}

theorem getElem?_append_of_eq_some {α : Type} {values : List α}
    {position : Nat} {value : α} (found : values[position]? = some value)
    {more : List α} : (values ++ more)[position]? = some value := by
  obtain ⟨inside, _⟩ := List.getElem?_eq_some_iff.mp found
  rw [List.getElem?_append_left inside, found]

theorem drop_eq_of_getElem? {records : List PerfRecord} {position : Nat}
    {record : PerfRecord} (found : records[position]? = some record) :
    records.drop position = record :: records.drop (position + 1) := by
  obtain ⟨inside, rfl⟩ := List.getElem?_eq_some_iff.mp found
  exact List.drop_eq_getElem_cons inside

theorem take_succ_of_getElem? {records : List PerfRecord} {position : Nat}
    {record : PerfRecord} (found : records[position]? = some record) :
    records.take (position + 1) = records.take position ++ [record] := by
  rw [List.take_add_one, found]
  rfl

theorem Sound.init (mapping : PerfMapping) (data : Circular UInt8)
    (eventCopy : Nat → UInt8) :
    Sound hasLostSamples (.init mapping data eventCopy) where
  layout := ⟨rfl, rfl, Nat.zero_le _, rfl⟩
  bounded := Nat.le_refl _
  dispatched := fun _ _ _ found => nomatch found
  got := fun _ _ found => nomatch found
  lost := rfl
  phase := trivial

theorem Dispatched.append {appended : List PerfRecord} {taken : List Taken}
    (dispatched : Dispatched hasLostSamples appended taken)
    (record : PerfRecord) :
    Dispatched hasLostSamples (appended ++ [record]) taken := by
  intro position way bytes found
  obtain ⟨old, isOld, same⟩ := dispatched position way bytes found
  exact ⟨old, getElem?_append_of_eq_some isOld, same⟩

theorem Dispatched.pop {appended : List PerfRecord} {taken : List Taken}
    (dispatched : Dispatched hasLostSamples appended taken) :
    Dispatched hasLostSamples appended (taken ++ [.popped]) := by
  intro position way bytes found
  rw [List.getElem?_append] at found
  split_ifs at found
  · exact dispatched position way bytes found
  · have inside := List.mem_of_getElem? found
    cases List.mem_singleton.mp inside

theorem Dispatched.dispatch {appended : List PerfRecord} {taken : List Taken}
    (dispatched : Dispatched hasLostSamples appended taken)
    {record : PerfRecord} (next : appended[taken.length]? = some record) :
    Dispatched hasLostSamples appended
      (taken ++ [.dispatched (dispatch hasLostSamples record.type)
        record.bytes]) := by
  intro position way bytes found
  rw [List.getElem?_append] at found
  split_ifs at found with old
  · exact dispatched position way bytes found
  · obtain ⟨here, same⟩ := List.getElem?_eq_some_iff.mp found
    rw [List.length_singleton] at here
    have position_eq : position = taken.length := by omega
    subst position_eq
    simp only [Nat.sub_self, List.getElem_cons_zero,
      Taken.dispatched.injEq] at same
    exact ⟨record, next, same.2.symm, same.1.symm⟩

theorem Found.append {appended : List PerfRecord}
    {got : List (Nat × List UInt8)} (found : Found appended got)
    (record : PerfRecord) : Found (appended ++ [record]) got := by
  intro position bytes inside
  obtain ⟨old, isOld, same⟩ := found position bytes inside
  exact ⟨old, getElem?_append_of_eq_some isOld, same⟩

theorem Sound.layout_at (sound : Sound hasLostSamples s) {record : PerfRecord}
    (next : s.appended[s.popped]? = some record) :
    s.reader.Layout (s.appended.take s.popped)
      (record :: s.appended.drop (s.popped + 1)) := by
  rw [← drop_eq_of_getElem? next]
  exact sound.layout

theorem Sound.popped_le (sound : Sound hasLostSamples s) :
    s.popped ≤ s.appended.length := by
  have bounded := sound.bounded
  unfold popped
  split
  · omega
  · exact bounded

/-- Where the buffer is not empty, there is a record at the tail. -/
theorem Sound.popped_lt (sound : Sound hasLostSamples s)
    (nonempty : s.reader.empty = false) : s.popped < s.appended.length := by
  by_contra none
  have drained : s.appended.drop s.popped = [] :=
    List.drop_eq_nil_of_le (Nat.le_of_not_lt none)
  rw [sound.layout.empty_iff.mpr drained] at nonempty
  cases nonempty

theorem Sound.layout_popped (sound : Sound hasLostSamples s)
    (inside : s.popped < s.appended.length) :
    ∃ eventCopy dataTail,
      s.reader.pop = .ok { s.reader with
        eventCopy := eventCopy
        dataTail := dataTail } ∧
      EventReader.Layout { s.reader with
        eventCopy := eventCopy
        dataTail := dataTail } (s.appended.take (s.popped + 1))
          (s.appended.drop (s.popped + 1)) := by
  have next := List.getElem?_eq_getElem inside
  obtain ⟨eventCopy, dataTail, popped, layout⟩ :=
    (sound.layout_at next).pop_spec
  rw [← take_succ_of_getElem? next] at layout
  exact ⟨eventCopy, dataTail, popped, layout⟩

theorem Sound.append (sound : Sound hasLostSamples s) {record : PerfRecord}
    (small : s.reader.dataHead.toNat + record.bytes.length < 2 ^ 64)
    (free : s.reader.dataHead.toNat + record.bytes.length ≤
      s.reader.dataTail.toNat + s.reader.size) :
    Sound hasLostSamples (s.append record) where
  layout := by
    have popped : (s.append record).popped = s.popped := rfl
    have within := sound.popped_le
    rw [popped]
    simp only [ReadSession.append]
    rw [List.take_append_of_le_length within, List.drop_append_of_le_length within]
    exact sound.layout.append small free
  bounded := by
    have bounded := sound.bounded
    simp only [ReadSession.append, List.length_append, List.length_singleton]
    omega
  dispatched := sound.dispatched.append record
  got := sound.got.append record
  lost := sound.lost
  phase := by
    have phase := sound.phase
    simp only [ReadSession.append]
    split
    · trivial
    · trivial
    · rename_i fetching
      rw [fetching] at phase
      rw [List.length_append]
      omega
    · rename_i pointer fetched
      rw [fetched] at phase
      obtain ⟨next, found, points⟩ := phase
      refine ⟨next, getElem?_append_of_eq_some found, ?_⟩
      cases pointer <;> exact points
    · rename_i stop handled
      rw [handled] at phase
      exact phase

theorem loadRecord_eq {r : EventReader} {before pending : List PerfRecord}
    {record : PerfRecord} (layout : r.Layout before (record :: pending))
    {pointer : RecordPointer} (points : r.Points record pointer) :
    loadRecord pointer r = .ok record.bytes := by
  have inside : 0 + record.bytes.length ≤ record.bytes.length := by omega
  have whole := layout.load_eq points inside
  rw [List.drop_zero, List.take_length] at whole
  simp only [loadRecord, layout.loadSize_eq points, bind, Except.bind]
  exact whole

theorem Sound.get (sound : Sound hasLostSamples s) (idle : s.phase = .idle)
    (nonempty : s.reader.empty = false) :
    ∃ next, s.get = .ok next ∧ Sound hasLostSamples next := by
  have atTail : s.popped = s.taken.length := by rw [popped, idle]
  obtain ⟨record, next⟩ : ∃ record, s.appended[s.popped]? = some record :=
    ⟨_, List.getElem?_eq_getElem (sound.popped_lt nonempty)⟩
  have layout := sound.layout_at next
  obtain ⟨pointer, eventCopy, got, points⟩ := layout.get_spec
  have bytes := loadRecord_eq (layout.eventCopy eventCopy) points
  refine ⟨{ s with
    reader := { s.reader with eventCopy := eventCopy }
    got := s.got ++ [(s.taken.length, record.bytes)] }, ?_, ?_⟩
  · simp only [ReadSession.get, got, bytes, bind, Except.bind]
    rfl
  · constructor
    · exact sound.layout.eventCopy eventCopy
    · exact sound.bounded
    · exact sound.dispatched
    · intro position found inside
      rcases List.mem_append.mp inside with old | new
      · exact sound.got position found old
      · obtain ⟨rfl, rfl⟩ := Prod.mk.inj (List.mem_singleton.mp new)
        exact ⟨record, atTail ▸ next, rfl⟩
    · exact sound.lost
    · simp [idle]

theorem Sound.pop (sound : Sound hasLostSamples s) (idle : s.phase = .idle)
    (nonempty : s.reader.empty = false) :
    ∃ eventCopy dataTail,
      s.pop = .ok { s with
        reader := { s.reader with
          eventCopy := eventCopy
          dataTail := dataTail }
        taken := s.taken ++ [.popped] } ∧
      Sound hasLostSamples { s with
        reader := { s.reader with
          eventCopy := eventCopy
          dataTail := dataTail }
        taken := s.taken ++ [.popped] } := by
  have atTail : s.popped = s.taken.length := by rw [popped, idle]
  have inside := sound.popped_lt nonempty
  obtain ⟨eventCopy, dataTail, popped, layout⟩ := sound.layout_popped inside
  refine ⟨eventCopy, dataTail, ?_, ?_⟩
  · simp only [ReadSession.pop, popped, bind, Except.bind]
    rfl
  · constructor
    · have next : ReadSession.popped
          ⟨{ s.reader with
            eventCopy := eventCopy
            dataTail := dataTail }, s.phase, s.appended,
            s.taken ++ [.popped], s.got⟩ = s.popped + 1 := by
        simp [ReadSession.popped, idle]
      rw [next]
      exact layout
    · simp only [List.length_append, List.length_singleton]
      omega
    · exact sound.dispatched.pop
    · exact sound.got
    · simp [sound.lost, lostIn]
    · simp [idle]

/-- A record about lost samples is one whether or not
`PERF_RECORD_LOST_SAMPLES` has been compiled in. -/
theorem dispatch_countLost {type : UInt32} {offset : Nat}
    (counts : dispatch hasLostSamples type = .countLost offset) :
    dispatch true type = .countLost offset := by
  cases hasLostSamples with
  | true => exact counts
  | false =>
      unfold dispatch at counts ⊢
      split at counts <;> simp_all

theorem lostIn_eq_zero {way : Dispatch} {bytes : List UInt8}
    (other : ∀ offset, way ≠ .countLost offset) :
    lostIn (.dispatched way bytes) = 0 := by
  cases way with
  | countLost offset => exact absurd rfl (other offset)
  | _ => rfl

/-- The `switch` sees the type of the record and adds what it has lost. -/
theorem dispatchRecord_spec (hasLostSamples : Bool) {r : EventReader}
    {before pending : List PerfRecord} {record : PerfRecord}
    (layout : r.Layout before (record :: pending))
    {pointer : RecordPointer} (points : r.Points record pointer) :
    ∃ throttleSamples,
      r.dispatchRecord hasLostSamples pointer =
        .ok (dispatch hasLostSamples record.type, { r with
          throttleSamples := throttleSamples
          lostSamples := (r.lostSamples.toUInt64 + lostIn
            (.dispatched (dispatch hasLostSamples record.type)
              record.bytes)).toInt64 }) := by
  have nothing : (r.lostSamples.toUInt64 + 0).toInt64 = r.lostSamples := by
    simp
  simp only [EventReader.dispatchRecord, layout.loadType_eq points, bind,
    Except.bind]
  split
  · rename_i throttles
    rw [throttles]
    refine ⟨r.throttleSamples + 1, ?_⟩
    simp only [lostIn, nothing]
    rfl
  · rename_i offset counts
    have inside := record.hasLost offset (dispatch_countLost counts)
    rw [counts, layout.loadField_eq points inside]
    exact ⟨r.throttleSamples, rfl⟩
  · rename_i other
    refine ⟨r.throttleSamples, ?_⟩
    rw [lostIn_eq_zero other, nothing]
    rfl

private theorem Sound.checking (sound : Sound hasLostSamples s)
    (phase : s.phase = .checking) :
    Sound hasLostSamples
      { s with phase := if s.reader.empty then .idle else .fetching } := by
  have atTail : s.popped = s.taken.length := by rw [popped, phase]
  have layout := sound.layout
  rw [atTail] at layout
  cases nonempty : s.reader.empty with
  | true =>
      exact ⟨layout, sound.bounded, sound.dispatched, sound.got, sound.lost,
        trivial⟩
  | false =>
      exact ⟨layout, sound.bounded, sound.dispatched, sound.got, sound.lost,
        atTail ▸ sound.popped_lt nonempty⟩

private theorem Sound.fetching (sound : Sound hasLostSamples s)
    (phase : s.phase = .fetching) (stop : Bool) :
    ∃ next, s.advance hasLostSamples stop = .ok next ∧
      Sound hasLostSamples next := by
  have atTail : s.popped = s.taken.length := by rw [popped, phase]
  have inside : s.taken.length < s.appended.length := by
    have known := sound.phase
    rwa [phase] at known
  obtain ⟨record, next⟩ : ∃ record, s.appended[s.popped]? = some record :=
    ⟨_, List.getElem?_eq_getElem (atTail ▸ inside)⟩
  obtain ⟨pointer, eventCopy, got, points⟩ := (sound.layout_at next).get_spec
  refine ⟨{ s with
    reader := { s.reader with eventCopy := eventCopy }
    phase := .fetched pointer }, ?_, ?_⟩
  · simp only [ReadSession.advance, phase, got, bind, Except.bind]
    rfl
  · have layout := sound.layout.eventCopy eventCopy
    rw [atTail] at layout next
    exact ⟨layout, sound.bounded, sound.dispatched, sound.got, sound.lost,
      record, next, points⟩

private theorem Sound.fetched (sound : Sound hasLostSamples s)
    {pointer : RecordPointer} (phase : s.phase = .fetched pointer)
    (stop : Bool) :
    ∃ next, s.advance hasLostSamples stop = .ok next ∧
      Sound hasLostSamples next := by
  have atTail : s.popped = s.taken.length := by rw [popped, phase]
  obtain ⟨record, next, points⟩ : ∃ record,
      s.appended[s.taken.length]? = some record ∧
        s.reader.Points record pointer := by
    have known := sound.phase
    rwa [phase] at known
  have layout := sound.layout_at (atTail ▸ next)
  obtain ⟨throttleSamples, dispatched⟩ := dispatchRecord_spec
    hasLostSamples layout points
  have bytes := loadRecord_eq layout points
  have lost := sound.lost
  let taken : Taken :=
    .dispatched (dispatch hasLostSamples record.type) record.bytes
  refine ⟨{ s with
    reader := { s.reader with
      throttleSamples := throttleSamples
      lostSamples :=
        (s.reader.lostSamples.toUInt64 + lostIn taken).toInt64 }
    phase := .handled ((dispatch hasLostSamples record.type).calls && stop)
    taken := s.taken ++ [taken] }, ?_, ?_⟩
  · simp only [ReadSession.advance, phase, bytes, dispatched, bind,
      Except.bind]
    rfl
  · have within := (List.getElem?_eq_some_iff.mp next).1
    constructor
    · have same : ReadSession.popped
          ⟨{ s.reader with
            throttleSamples := throttleSamples
            lostSamples :=
              (s.reader.lostSamples.toUInt64 + lostIn taken).toInt64 },
            .handled ((dispatch hasLostSamples record.type).calls && stop),
            s.appended, s.taken ++ [taken], s.got⟩ = s.popped := by
        simp [ReadSession.popped, phase]
      rw [same]
      exact ⟨sound.layout.tail, sound.layout.head, sound.layout.fits,
        sound.layout.stored⟩
    · simp only [List.length_append, List.length_singleton]
      omega
    · exact sound.dispatched.dispatch next
    · exact sound.got
    · simp [lost]
    · simp

private theorem Sound.handled (sound : Sound hasLostSamples s)
    {stopping : Bool} (phase : s.phase = .handled stopping) (stop : Bool) :
    ∃ next, s.advance hasLostSamples stop = .ok next ∧
      Sound hasLostSamples next := by
  have behind : s.popped = s.taken.length - 1 := by rw [popped, phase]
  have some : 0 < s.taken.length := by
    have known := sound.phase
    rwa [phase] at known
  have bounded := sound.bounded
  obtain ⟨eventCopy, dataTail, popped, layout⟩ :=
    sound.layout_popped (by omega)
  have next : s.popped + 1 = s.taken.length := by omega
  rw [next] at layout
  refine ⟨{ s with
    reader := { s.reader with
      eventCopy := eventCopy
      dataTail := dataTail }
    phase := if stopping then .idle else .checking }, ?_, ?_⟩
  · simp only [ReadSession.advance, phase, popped, bind, Except.bind]
    rfl
  · cases stopping with
    | true =>
        exact ⟨layout, bounded, sound.dispatched, sound.got, sound.lost,
          trivial⟩
    | false =>
        exact ⟨layout, bounded, sound.dispatched, sound.got, sound.lost,
          trivial⟩

theorem Sound.advance (sound : Sound hasLostSamples s) (stop : Bool) :
    ∃ next, s.advance hasLostSamples stop = .ok next ∧
      Sound hasLostSamples next := by
  cases phase : s.phase with
  | idle => exact ⟨s, by rw [ReadSession.advance, phase], sound⟩
  | checking =>
      exact ⟨_, by rw [ReadSession.advance, phase], sound.checking phase⟩
  | fetching => exact sound.fetching phase stop
  | fetched pointer => exact sound.fetched phase stop
  | handled stopping => exact sound.handled phase stop

theorem Sound.delivered (sound : Sound hasLostSamples s) :
    Delivered hasLostSamples s where
  bounded := sound.bounded
  dispatched := sound.dispatched
  got := sound.got
  exhausted := by
    intro isEmpty
    have none := sound.layout.empty_iff.mp isEmpty
    have all := List.drop_eq_nil_iff.mp none
    have bounded := sound.bounded
    unfold popped at all
    split at all
    · omega
    · exact Nat.le_antisymm bounded all
  order := by
    rw [UInt64.le_iff_toNat_le, sound.layout.tail, sound.layout.head]
    omega
  lost := sound.lost

theorem Sound.step (sound : Sound hasLostSamples s) {input : ReadInput}
    (allowed : Allowed s input) :
    ∃ next, s.step hasLostSamples input = .ok next ∧
      Sound hasLostSamples next := by
  cases input with
  | append record => exact ⟨_, rfl, sound.append allowed.1 allowed.2⟩
  | get => exact sound.get allowed.1 allowed.2
  | pop =>
      obtain ⟨_, _, popped, next⟩ := sound.pop allowed.1 allowed.2
      exact ⟨_, popped, next⟩
  | read =>
      have idle : s.phase = .idle := allowed
      have layout := sound.layout
      rw [show s.popped = s.taken.length by rw [popped, idle]] at layout
      exact ⟨_, rfl, layout, sound.bounded, sound.dispatched, sound.got,
        sound.lost, trivial⟩
  | advance stop => exact sound.advance stop

/-- The records of the kernel are delivered once, in order and as they were
appended. -/
theorem delivered_of_allowed (hasLostSamples : Bool) (mapping : PerfMapping)
    (data : Circular UInt8) (eventCopy : Nat → UInt8)
    {inputs : List ReadInput}
    (allowed : AllowedRun (ReadSession.step hasLostSamples) Allowed
      (.init mapping data eventCopy) inputs) :
    ∃ s, run (ReadSession.step hasLostSamples) (.init mapping data eventCopy)
      inputs = .ok s ∧ Delivered hasLostSamples s := by
  obtain ⟨s, reached, sound⟩ := run_invariant
    (fun _ _ sound allowed => Sound.step sound allowed)
    (Sound.init mapping data eventCopy) allowed
  exact ⟨s, reached, sound.delivered⟩

end

/-- A data area of one page. -/
def onePage : PerfMapping := ⟨1, 4096, by decide, by decide, by decide⟩

/-- A session with one page of zeros. -/
def fresh : ReadSession := .init onePage (fun _ => 0) (fun _ => 0)

/-- A `PERF_RECORD_LOST` about five samples. -/
def fiveLost : PerfRecord where
  bytes := [2, 0, 0, 0, 0, 0, 24, 0, 0, 0, 0, 0, 0, 0, 0, 0,
    5, 0, 0, 0, 0, 0, 0, 0]
  size_eq := by decide
  hasHeader := by decide
  aligned := by decide
  hasLost offset counts := by
    rw [← Dispatch.countLost.inj counts]
    decide

theorem delivered_of_allowed_fiveLost :
    ∃ s, run (ReadSession.step false) fresh
      [.append fiveLost, .read, .advance false, .advance false,
        .advance false, .advance false] = .ok s ∧ Delivered false s :=
  delivered_of_allowed false onePage (fun _ => 0) (fun _ => 0) (by decide)

example : (run (ReadSession.step false) fresh
    [.append fiveLost, .read, .advance false, .advance false,
      .advance false]).toOption.map (·.reader.lostSamples) = some 5 := by decide

theorem exists_round {s : ReadSession} {record : PerfRecord}
    (full : record.bytes.length = 4096) (sound : Sound false s)
    (idle : s.phase = .idle) (drained : s.taken.length = s.appended.length)
    (page : s.reader.mapping = onePage)
    (small : s.reader.dataHead.toNat + 4096 < 2 ^ 64) :
    ∃ next, run (ReadSession.step false) s [.append record, .pop] =
        .ok next ∧ Sound false next ∧ next.phase = .idle ∧
      next.taken.length = next.appended.length ∧
      next.reader.mapping = onePage ∧
      next.reader.dataHead.toNat = s.reader.dataHead.toNat + 4096 ∧
      next.reader.data =
        s.reader.data.write 4096 s.reader.dataHead.toNat record.bytes := by
  have size : s.reader.size = 4096 := by
    rw [EventReader.size, page]
    rfl
  have atTail : s.popped = s.taken.length := by rw [popped, idle]
  have layout := sound.layout
  rw [atTail, drained, List.drop_length] at layout
  have head := layout.head
  have tail := layout.tail
  rw [PerfRecord.flat_nil, List.length_nil] at head
  have appended : Sound false (s.append record) :=
    sound.append (by omega) (by omega)
  have dataHead : (s.append record).reader.dataHead.toNat =
      s.reader.dataHead.toNat + 4096 := by
    rw [ReadSession.append, UInt64.toNat_add, UInt64.toNat_ofNat', full]
    omega
  have nonempty : (s.append record).reader.empty = false := by
    have same : (s.append record).reader.dataTail = s.reader.dataTail := rfl
    rw [EventReader.empty, beq_eq_false_iff_ne]
    intro equal
    rw [← UInt64.toNat_inj, dataHead, same] at equal
    omega
  obtain ⟨eventCopy, dataTail, popped, next⟩ := appended.pop idle nonempty
  refine ⟨_, ?_, next, idle, ?_, page, dataHead, ?_⟩
  · simp only [run, ReadSession.step, popped]
  · simp [ReadSession.append, drained]
  · rw [← size]
    rfl

theorem Sound.counters_eq {s : ReadSession} (sound : Sound false s)
    (idle : s.phase = .idle) (drained : s.taken.length = s.appended.length) :
    s.reader.dataTail.toNat = s.reader.dataHead.toNat := by
  have atTail : s.popped = s.taken.length := by rw [popped, idle]
  have layout := sound.layout
  rw [atTail, drained, List.drop_length] at layout
  have head := layout.head
  rw [PerfRecord.flat_nil, List.length_nil] at head
  exact layout.tail.trans head.symm

/-- Whole pages that go through the buffer, one after the other. -/
def pages (record : PerfRecord) (count : Nat) : List ReadInput :=
  (List.replicate count [ReadInput.append record, .pop]).flatten

theorem exists_pages {record : PerfRecord}
    (full : record.bytes.length = 4096) {count : Nat}
    (small : 4096 * count < 2 ^ 64) :
    ∃ s, run (ReadSession.step false) fresh (pages record count) = .ok s ∧
      Sound false s ∧ s.phase = .idle ∧
      s.taken.length = s.appended.length ∧ s.reader.mapping = onePage ∧
      s.reader.dataHead.toNat = 4096 * count := by
  induction count with
  | zero => exact ⟨fresh, rfl, Sound.init _ _ _, rfl, rfl, rfl, rfl⟩
  | succ count induction =>
      obtain ⟨s, reached, sound, idle, drained, page, head⟩ :=
        induction (by omega)
      obtain ⟨next, stepped, nextSound, nextIdle, nextDrained, nextPage,
        nextHead, _⟩ := exists_round full sound idle drained page (by omega)
      refine ⟨next, ?_, nextSound, nextIdle, nextDrained, nextPage, by omega⟩
      rw [pages, List.replicate_succ', List.flatten_append, run_append]
      rw [pages] at reached
      rw [reached]
      exact stepped

/-- A `pop` on the empty buffer passes the stale record behind the tail. -/
theorem pop_stale {record : PerfRecord}
    (full : record.bytes.length = 4096) :
    ∃ s, run (ReadSession.step false) fresh
        [.append record, .pop, .pop] = .ok s ∧
      s.reader.dataHead < s.reader.dataTail := by
  have start : Sound false fresh := .init onePage _ _
  obtain ⟨s, reached, sound, idle, drained, page, head, data⟩ :=
    exists_round full start rfl rfl rfl (by decide)
  have tail := sound.counters_eq idle drained
  change s.reader.dataHead.toNat = 0 + 4096 at head
  have size : s.reader.size = 4096 := by
    rw [EventReader.size, page]
    rfl
  have window : s.reader.data.window 4096 0 4096 = record.bytes := by
    have written := Circular.window_write_self (fun _ => 0) 0
      (Nat.le_of_eq full)
    rw [full] at written
    rw [data]
    exact written
  have checked : s.reader.checkPositions = .ok () := by
    have same := UInt64.toNat_inj.mp tail
    rw [EventReader.checkPositions, same, UInt64.sub_self]
    simp
  have index : (s.reader.dataTail % s.reader.mapping.dataSize).toNat = 0 := by
    rw [UInt64.toNat_mod, tail, head]
    rw [EventReader.size] at size
    rw [size]
  have length : s.reader.loadSize (.inData 0) = .ok 4096 := by
    have header : s.reader.data.window 4096 6 2 =
        (record.bytes.drop 6).take 2 := by
      rw [← window, Circular.drop_window _ _ _ (by decide),
        Circular.take_window _ _ _ (by decide)]
    rw [EventReader.loadSize, EventReader.load, if_pos (by omega), size,
      header, ← full, ← record.size_eq]
    rfl
  have got : s.reader.get = .ok (.inData 0, s.reader) := by
    simp only [EventReader.get, checked, index, length, bind, Except.bind]
    rw [if_neg (by omega)]
    rfl
  refine ⟨{ s with
    reader := { s.reader with dataTail := s.reader.dataTail + 4096 }
    taken := s.taken ++ [.popped] }, ?_, ?_⟩
  · have popped : s.pop = .ok { s with
        reader := { s.reader with dataTail := s.reader.dataTail + 4096 }
        taken := s.taken ++ [.popped] } := by
      simp only [ReadSession.pop, EventReader.pop, got, length, bind,
        Except.bind]
      rfl
    rw [show [ReadInput.append record, .pop, .pop] =
      [.append record, .pop] ++ [.pop] from rfl, run_append, reached]
    simp only [run, ReadSession.step, popped]
  · show s.reader.dataHead < s.reader.dataTail + 4096
    rw [UInt64.lt_iff_toNat_lt, UInt64.toNat_add, tail, head]
    decide

/-- A counter that has come to its end starts again in front of the other. -/
theorem append_wraps {record : PerfRecord}
    (full : record.bytes.length = 4096) :
    ∃ s, run (ReadSession.step false) fresh
        (pages record (2 ^ 52 - 1) ++ [.append record]) = .ok s ∧
      s.reader.dataHead < s.reader.dataTail := by
  obtain ⟨s, reached, sound, idle, drained, page, head⟩ :=
    exists_pages full (show 4096 * (2 ^ 52 - 1) < 2 ^ 64 by decide)
  have tail := sound.counters_eq idle drained
  refine ⟨s.append record, ?_, ?_⟩
  · rw [run_append, reached]
    rfl
  · show s.reader.dataHead + UInt64.ofNat record.bytes.length <
      s.reader.dataTail
    rw [UInt64.lt_iff_toNat_lt, UInt64.toNat_add, UInt64.toNat_ofNat', full,
      tail, head]
    decide

/-- A record that fills the page. -/
def wholePage : PerfRecord where
  bytes := [9, 0, 0, 0, 0, 0, 0, 16] ++ List.replicate 4088 0
  size_eq := by
    rw [List.length_append, List.length_replicate]
    rfl
  hasHeader := by
    rw [List.length_append, List.length_replicate]
    decide
  aligned := by
    rw [List.length_append, List.length_replicate]
    rfl
  hasLost offset counts := nomatch counts

theorem length_wholePage : wholePage.bytes.length = 4096 := by
  rw [wholePage, List.length_append, List.length_replicate]
  rfl

/-- A lost record that is popped without `read` is not counted; a `pop` on the
empty buffer, and 2 ^ 64 bytes, let the tail exceed the head. -/
theorem fails_outside_of_allowed :
    (∃ s, run (ReadSession.step false) fresh [.append fiveLost, .pop] = .ok s ∧
      s.taken.length = 1 ∧ s.appended.map (·.field 16) = [5] ∧
      s.reader.lostSamples = 0) ∧
    (∃ s, run (ReadSession.step false) fresh
        [.append wholePage, .pop, .pop] = .ok s ∧
      s.reader.dataHead < s.reader.dataTail) ∧
    ∃ s, run (ReadSession.step false) fresh
        (pages wholePage (2 ^ 52 - 1) ++ [.append wholePage]) = .ok s ∧
      s.reader.dataHead < s.reader.dataTail :=
  ⟨⟨_, rfl, by decide, by decide, by decide⟩, pop_stale length_wholePage,
    append_wraps length_wholePage⟩

end ReadSession

end Lo2s
