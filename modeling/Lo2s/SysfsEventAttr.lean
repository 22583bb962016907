import Lo2s.ApplyMask
import Lo2s.EventAvailability
import Lo2s.ParseList

/-!
# Events of sysfs

The constructor of `SysfsEventAttr` reads the files of a PMU one after the
other: its type, the terms of the event, the CPUs, and for each term the format
that says where its value goes.  Callers take an `EventAttr::InvalidEvent` for
an event that is not there; every other exception passes them by.
-/

namespace Lo2s

open Foundation Scan

/-- The files of a PMU, by their contents; `none` is a file that cannot be read.
For `type` it is the number that is read from the file.  The scale and the unit
are left out: whatever their files hold, there is a default. -/
structure PmuFiles where
  type : Option UInt32
  cpus : Option (List Char)
  cpumask : Option (List Char)
  events : List Char → Option (List Char)
  format : List Char → Option (List Char)

/-- `stream >> val` on a string: what stands between white space. -/
def token (contents : Option (List Char)) : Option (List Char) :=
  contents.bind fun text =>
    (many1 (fun c => !isSpace c) (text.dropWhile isSpace)).map Prod.fst

/-- `[a-z0-9-_]`. -/
def isNameChar (c : Char) : Bool :=
  ('a' ≤ c && c ≤ 'z') || ('0' ≤ c && c ≤ '9') || c = '-' || c = '_'

/-- A match of the whole name with `([a-z0-9-_]+)[\/:]([a-z0-9-_]+)\/?`. -/
def matchEvName (evName : List Char) : Option (List Char × List Char) :=
  match many1 isNameChar evName with
  | none => none
  | some (pmu, rest) =>
      match rest with
      | [] => none
      | separator :: behind =>
          if separator = '/' ∨ separator = ':' then
            match many1 isNameChar behind with
            | none => none
            | some (name, suffix) =>
                if suffix = [] ∨ suffix = ['/'] then some (pmu, name)
                else none
          else none

/-- `<term>[=<value>]` in the configuration of an event. -/
structure EventTerm where
  term : List Char
  value : List Char

/-- The leftmost match of `([^=,]+)(?:=([^,]+))?` and the text behind it. -/
def searchTerm (text : List Char) : Option (EventTerm × List Char) :=
  let start := text.dropWhile fun c => c = '=' || c = ','
  match many1 (fun c => c ≠ '=' && c ≠ ',') start with
  | none => none
  | some (term, rest) =>
      match rest with
      | '=' :: behind =>
          match many1 (fun c => c ≠ ',') behind with
          | none => some (⟨term, ['0', 'x', '1']⟩, rest)
          | some (value, suffix) => some (⟨term, value⟩, suffix)
      | _ => some (⟨term, ['0', 'x', '1']⟩, rest)

/-- The terms that the loop finds; each takes at least one character. -/
def eventTerms : Nat → List Char → List EventTerm
  | 0, _ => []
  | fuel + 1, text =>
      match searchTerm text with
      | none => []
      | some (found, suffix) => found :: eventTerms fuel suffix

/-- The body of the loop over the terms. -/
def applyTerm (files : PmuFiles) (ev : EventAttr) (t : EventTerm) :
    Except EventError EventAttr :=
  match token (files.format t.term) with
  | none => .error (.invalid "cannot read event format")
  | some format =>
      match numberOrThrow (StrTol.stol t.value) with
      | .error thrown => .error thrown
      | .ok value => eventAttrUpdate (UInt64.ofInt value) format ev

def parseListFromFile (rounds : Nat) (contents : Option (List Char)) :
    Option (Except EventError (List UInt32)) :=
  match token contents with
  | none => some (.ok [])
  | some list => parseList rounds list

/-- The CPUs of the PMU: `cpumask` is read if `cpus` has none. -/
def pmuCpuids (rounds : Nat) (files : PmuFiles) :
    Option (Except EventError (List UInt32)) :=
  match parseListFromFile rounds files.cpus with
  | some (.ok []) => parseListFromFile rounds files.cpumask
  | result => result

/-- `Cpu(cpuid)`. -/
def cpuOf (cpuid : UInt32) : Int64 := Int64.ofNat cpuid.toNat

/-- The event has to be openable; what is read of an empty set of CPUs is not
defined. -/
def openOrThrow (system : PerfSystem) (ev : EventAttr) :
    Except EventError EventAttr :=
  match ev.eventIsOpenable system with
  | .error _ => .error .undefined
  | .ok ev =>
      if ev.isOpenable then .ok ev
      else .error (.invalid
        "Event can not be opened in process- or system-monitoring-mode")

/-- The loop over the terms and what follows it. -/
def configure (system : PerfSystem) (files : PmuFiles)
    (terms : List EventTerm) (ev : EventAttr) : Except EventError EventAttr :=
  match run (applyTerm files) ev terms with
  | .error thrown => .error thrown
  | .ok ev => openOrThrow system ev

/-- `SysfsEventAttr`, with the rounds that each loop over a range of CPUs may
take; `devices` has the files of each PMU. -/
def sysfsEventAttr (system : PerfSystem) (devices : List Char → PmuFiles)
    (rounds : Nat) (evName : String) : Option (Except EventError EventAttr) :=
  let (pmuName, name) := (matchEvName evName.toList).getD ([], [])
  let files := devices pmuName
  match files.type with
  | none => some (.error (.invalid
      ("unknown PMU '" ++ String.ofList pmuName ++ "'")))
  | some type =>
  match token (files.events name) with
  | none => some (.error (.invalid ("unknown event '" ++ String.ofList name ++
      "' for PMU '" ++ String.ofList pmuName ++ "'")))
  | some evCfg =>
  match pmuCpuids rounds files with
  | none => none
  | some (.error thrown) => some (.error thrown)
  | some (.ok cpuids) =>
      let ev := EventAttr.init evName ⟨type, 0, 0⟩
      let ev := { ev with
        cpus :=
          if cpuids.isEmpty then ev.getCpuSetFor system
          else cpuSet (cpuids.map cpuOf) }
      some (configure system files (eventTerms evCfg.length evCfg) ev)

def TermPasses (files : PmuFiles) (t : EventTerm) : Prop :=
  ∃ format value, token (files.format t.term) = some format ∧
    StrTol.stol t.value = .ok value ∧ FormatPasses format

/-- A term that ends in `InvalidEvent`: it has no format, or its value is a
number and its format is caught. -/
def TermCaught (files : PmuFiles) (t : EventTerm) : Prop :=
  token (files.format t.term) = none ∨
    ∃ format value, token (files.format t.term) = some format ∧
      StrTol.stol t.value = .ok value ∧ FormatCaught format

theorem applyTerm_ends (files : PmuFiles) (ev : EventAttr) (t : EventTerm) :
    Ends (TermPasses files t) (TermCaught files t) EventError.IsInvalid
      (applyTerm files ev t) := by
  unfold TermPasses TermCaught applyTerm
  cases token (files.format t.term) with
  | none =>
      refine ⟨fun passes => ?_,
        iff_of_true (.inl rfl) (EventError.isInvalid_invalid _)⟩
      obtain ⟨_, _, absent, _⟩ := passes
      cases absent
  | some format =>
      simp only [Option.some.injEq, reduceCtorEq, false_or]
      cases StrTol.stol t.value with
      | error error =>
          refine ⟨fun passes => ?_, iff_of_false (fun caught => ?_)
            (EventError.not_isInvalid_number error)⟩
          · obtain ⟨_, _, _, none, _⟩ := passes
            cases none
          · obtain ⟨_, _, _, none, _⟩ := caught
            cases none
      | ok value =>
          refine (Ends.congr ?_ ?_).mpr
            (eventAttrUpdate_ends (UInt64.ofInt value) format ev)
          · constructor
            · intro passes
              obtain ⟨_, _, rfl, _, passes⟩ := passes
              exact passes
            · exact fun passes => ⟨format, value, rfl, rfl, passes⟩
          · constructor
            · intro caught
              obtain ⟨_, _, rfl, _, caught⟩ := caught
              exact caught
            · exact fun caught => ⟨format, value, rfl, rfl, caught⟩

/-- A file of CPUs that is not there or is read completely. -/
def CpuFileParses (contents : Option (List Char)) : Prop :=
  ∀ list, token contents = some list → ListParses list

def CpuFileNames (contents : Option (List Char)) (cpuid : UInt32) : Prop :=
  ∃ list, token contents = some list ∧ ListNames list cpuid

/-- The files that are looked at for CPUs are read completely. -/
def CpusParse (files : PmuFiles) : Prop :=
  CpuFileParses files.cpus ∧
    ((∀ cpuid, ¬ CpuFileNames files.cpus cpuid) → CpuFileParses files.cpumask)

theorem parseListFromFile_cases (contents : Option (List Char))
    (rounds : Nat) :
    parseListFromFile rounds contents = none ∨
      (∃ error, parseListFromFile rounds contents =
        some (.error (.number error))) ∨
        CpuFileParses contents ∧ ∃ result,
          parseListFromFile rounds contents = some (.ok result) ∧
            ∀ cpuid, cpuid ∈ result ↔ CpuFileNames contents cpuid := by
  unfold parseListFromFile CpuFileParses CpuFileNames
  cases token contents with
  | none =>
      refine .inr (.inr ⟨fun _ absent => ?_, [], rfl, fun cpuid => ?_⟩)
      · cases absent
      · simp
  | some list => simpa using parseList_cases list rounds

theorem parseListFromFile_of_parses {contents : Option (List Char)}
    (parses : CpuFileParses contents) :
    ∃ rounds result, ∀ more, rounds ≤ more →
      parseListFromFile more contents = some (.ok result) := by
  unfold parseListFromFile
  cases found : token contents with
  | none => exact ⟨0, [], fun _ _ => rfl⟩
  | some list => exact parseList_of_parses (parses list found)

/-- One of the files has the number of a CPU. -/
def NamesCpu (files : PmuFiles) : Prop :=
  ∃ cpuid, CpuFileNames files.cpus cpuid ∨ CpuFileNames files.cpumask cpuid

theorem pmuCpuids_cases (files : PmuFiles) (rounds : Nat) :
    pmuCpuids rounds files = none ∨
      (∃ error, pmuCpuids rounds files = some (.error (.number error))) ∨
        CpusParse files ∧ ∃ result,
          pmuCpuids rounds files = some (.ok result) ∧
            (result ≠ [] ↔ NamesCpu files) := by
  unfold pmuCpuids CpusParse
  rcases parseListFromFile_cases files.cpus rounds with
    never | ⟨error, thrown⟩ | ⟨parses, result, parsed, contents⟩
  · exact .inl (by simp only [never])
  · exact .inr (.inl ⟨error, by simp only [thrown]⟩)
  · cases result with
    | nil =>
        have none : ∀ cpuid, ¬ CpuFileNames files.cpus cpuid :=
          fun cpuid named => List.not_mem_nil ((contents cpuid).mpr named)
        simp only [parsed]
        rcases parseListFromFile_cases files.cpumask rounds with
          never | thrown | ⟨maskParses, cpuids, found, maskContents⟩
        · exact .inl never
        · exact .inr (.inl thrown)
        · refine .inr (.inr ⟨⟨parses, fun _ => maskParses⟩, cpuids, found, ?_⟩)
          constructor
          · intro nonempty
            obtain ⟨cpuid, member⟩ := List.exists_mem_of_ne_nil _ nonempty
            exact ⟨cpuid, .inr ((maskContents cpuid).mp member)⟩
          · rintro ⟨cpuid, named | named⟩
            · exact absurd named (none cpuid)
            · exact List.ne_nil_of_mem ((maskContents cpuid).mpr named)
    | cons first rest =>
        have named := (contents first).mp List.mem_cons_self
        refine .inr (.inr ⟨⟨parses, fun none => absurd named (none first)⟩,
          first :: rest, by simp only [parsed], ?_⟩)
        exact iff_of_true (List.cons_ne_nil _ _) ⟨first, .inl named⟩

theorem pmuCpuids_of_parse {files : PmuFiles} (parse : CpusParse files) :
    ∃ rounds result, pmuCpuids rounds files = some (.ok result) := by
  obtain ⟨few, cpuids, parsed⟩ := parseListFromFile_of_parses parse.1
  unfold pmuCpuids
  cases cpuids with
  | cons first rest =>
      exact ⟨few, first :: rest, by simp only [parsed few (Nat.le_refl _)]⟩
  | nil =>
      have none : ∀ cpuid, ¬ CpuFileNames files.cpus cpuid := by
        intro cpuid named
        rcases parseListFromFile_cases files.cpus few with
          never | ⟨_, thrown⟩ | ⟨_, result, found, contents⟩
        · cases never.symm.trans (parsed few (Nat.le_refl _))
        · cases thrown.symm.trans (parsed few (Nat.le_refl _))
        · cases found.symm.trans (parsed few (Nat.le_refl _))
          exact List.not_mem_nil ((contents cpuid).mpr named)
      obtain ⟨many, result, parsedMask⟩ :=
        parseListFromFile_of_parses (parse.2 none)
      refine ⟨max few many, result, ?_⟩
      simp only [parsed _ (Nat.le_max_left few many),
        parsedMask _ (Nat.le_max_right few many)]

/-- There is a CPU to try the event on: a file names one, or one opens an event
of the type. -/
def CpuToTry (system : PerfSystem) (type : UInt32) (files : PmuFiles) : Prop :=
  NamesCpu files ∨ ∃ cpu ∈ system.cpus,
    system.canOpen (EventAttr.init "" ⟨type, 0, 0⟩).attr (.cpu cpu) = true

/-- Contents that the constructor copes with: the event is not there, or its
CPUs are read completely, and of its terms all pass and there is a CPU to try it
on, or the first that does not pass is one that is caught. -/
def ContentsCaught (system : PerfSystem) (devices : List Char → PmuFiles)
    (evName : String) : Prop :=
  let (pmuName, name) := (matchEvName evName.toList).getD ([], [])
  let files := devices pmuName
  files.type = none ∨ token (files.events name) = none ∨
    ∃ type evCfg, files.type = some type ∧
      token (files.events name) = some evCfg ∧ CpusParse files ∧
      ((∀ t ∈ eventTerms evCfg.length evCfg, TermPasses files t) ∧
          CpuToTry system type files ∨
        StopsAt (TermPasses files) (TermCaught files)
          (eventTerms evCfg.length evCfg))

/-- An event, or the exception that callers handle. -/
def EventOrInvalid (result : Except EventError EventAttr) : Prop :=
  (∃ ev, result = .ok ev) ∨ ∃ thrown, result = .error thrown ∧ thrown.IsInvalid

/-- The constructor ends, with an event or with `InvalidEvent`. -/
def ConstructsOrInvalid (system : PerfSystem)
    (devices : List Char → PmuFiles) (evName : String) : Prop :=
  ∃ rounds result, sysfsEventAttr system devices rounds evName = some result ∧
    EventOrInvalid result

theorem eventOrInvalid_invalid (what : String) :
    EventOrInvalid (.error (.invalid what)) :=
  .inr ⟨_, rfl, EventError.isInvalid_invalid what⟩

theorem eventOrInvalid_openOrThrow (system : PerfSystem) (ev : EventAttr) :
    EventOrInvalid (openOrThrow system ev) ↔ ev.cpus ≠ [] := by
  unfold openOrThrow
  constructor
  · rintro either empty
    rw [EventAttr.eventIsOpenable_of_nil empty] at either
    rcases either with ⟨_, same⟩ | ⟨_, same, invalid⟩
    · cases same
    · cases same
      exact EventError.not_isInvalid_undefined invalid
  · intro nonempty
    obtain ⟨final, opened⟩ :=
      EventAttr.eventIsOpenable_of_ne_nil nonempty system
    simp only [opened]
    split_ifs
    · exact .inl ⟨_, rfl⟩
    · exact eventOrInvalid_invalid _

theorem not_eventOrInvalid_number (error : NumberError) :
    ¬ EventOrInvalid (.error (.number error)) := by
  intro either
  rcases either with ⟨_, same⟩ | ⟨_, same, invalid⟩
  · cases same
  · cases same
    exact EventError.not_isInvalid_number error invalid

theorem cpus_of_terms {files : PmuFiles} {terms : List EventTerm}
    {ev last : EventAttr} (applied : run (applyTerm files) ev terms = .ok last) :
    last.cpus = ev.cpus := by
  refine invariant_of_run (fun _ reached => reached.cpus = ev.cpus) rfl ?_
    applied
  intro earlier middle t next same stepped
  rw [← same]
  unfold applyTerm at stepped
  split at stepped
  · cases stepped
  · split at stepped
    · cases stepped
    · exact cpus_of_eventAttrUpdate stepped

/-- What is made of the terms is told by them, and by the CPUs if they pass. -/
theorem eventOrInvalid_configure (system : PerfSystem) (files : PmuFiles)
    (terms : List EventTerm) (ev : EventAttr) :
    EventOrInvalid (configure system files terms ev) ↔
      (∀ t ∈ terms, TermPasses files t) ∧ ev.cpus ≠ [] ∨
        StopsAt (TermPasses files) (TermCaught files) terms := by
  have ends := Ends.run (applyTerm_ends files) ev terms
  rw [← ends.returns_iff, ← ends.handled_iff, configure]
  cases applied : run (applyTerm files) ev terms with
  | ok last =>
      simp only
      rw [eventOrInvalid_openOrThrow, cpus_of_terms applied]
      constructor
      · exact fun nonempty => .inl ⟨⟨last, rfl⟩, nonempty⟩
      · rintro (⟨_, nonempty⟩ | ⟨_, same, _⟩)
        · exact nonempty
        · cases same
  | error thrown =>
      refine or_congr ?_ Iff.rfl
      refine iff_of_false (fun event => ?_) (fun event => ?_)
      · obtain ⟨_, same⟩ := event
        cases same
      · obtain ⟨⟨_, same⟩, _⟩ := event
        cases same

theorem cpus_ne_nil_iff (system : PerfSystem) (evName : String) (type : UInt32)
    (cpuids : List UInt32) :
    (if cpuids.isEmpty then
      (EventAttr.init evName ⟨type, 0, 0⟩).getCpuSetFor system
    else cpuSet (cpuids.map cpuOf)) ≠ [] ↔
      cpuids ≠ [] ∨ ∃ cpu ∈ system.cpus,
        system.canOpen (EventAttr.init "" ⟨type, 0, 0⟩).attr (.cpu cpu) =
          true := by
  cases cpuids with
  | nil =>
      rw [or_iff_right (not_not_intro rfl)]
      exact @EventAttr.probed_ne_nil system (.init evName ⟨type, 0, 0⟩)
  | cons first rest =>
      refine iff_of_true ?_ (.inl (List.cons_ne_nil _ _))
      exact List.ne_nil_of_mem (mem_cpuSet.mpr List.mem_cons_self)

/-- When odd contents end in an event or in `InvalidEvent`. -/
theorem constructsOrInvalid_iff (system : PerfSystem)
    (devices : List Char → PmuFiles) (evName : String) :
    ConstructsOrInvalid system devices evName ↔
      ContentsCaught system devices evName := by
  unfold ConstructsOrInvalid ContentsCaught sysfsEventAttr
  generalize (matchEvName evName.toList).getD ([], []) = names
  obtain ⟨pmuName, name⟩ := names
  simp only
  generalize devices pmuName = files
  cases files.type with
  | none =>
      exact iff_of_true ⟨0, _, rfl, eventOrInvalid_invalid _⟩ (.inl rfl)
  | some type =>
      cases token (files.events name) with
      | none =>
          exact iff_of_true ⟨0, _, rfl, eventOrInvalid_invalid _⟩
            (.inr (.inl rfl))
      | some evCfg =>
          simp only [reduceCtorEq, false_or, Option.some.injEq,
            exists_and_left, exists_eq_left']
          constructor
          · intro constructs
            obtain ⟨rounds, result, ended, good⟩ := constructs
            rcases pmuCpuids_cases files rounds with
              never | ⟨error, thrown⟩ | ⟨parse, cpuids, found, names⟩
            · simp only [never] at ended
              cases ended
            · simp only [thrown] at ended
              cases ended
              exact absurd good (not_eventOrInvalid_number error)
            · simp only [found] at ended
              cases ended
              rw [eventOrInvalid_configure, cpus_ne_nil_iff, names] at good
              exact ⟨parse, good⟩
          · intro caught
            obtain ⟨rounds, cpuids, found⟩ := pmuCpuids_of_parse caught.1
            have names : cpuids ≠ [] ↔ NamesCpu files := by
              rcases pmuCpuids_cases files rounds with
                never | ⟨error, thrown⟩ | ⟨_, same, again, names⟩
              · cases never.symm.trans found
              · cases thrown.symm.trans found
              · cases again.symm.trans found
                exact names
            refine ⟨rounds, _, by simp only [found]; rfl, ?_⟩
            rw [eventOrInvalid_configure, cpus_ne_nil_iff, names]
            exact caught.2

/-- The files of one event, whose only term is `event=?`. -/
def questionMark : PmuFiles where
  type := some 4
  cpus := none
  cpumask := none
  events _ := some ['e', 'v', 'e', 'n', 't', '=', '?']
  format _ := some ['c', 'o', 'n', 'f', 'i', 'g', ':', '0', '-', '7']

/-- A value that is no number ends in `std::invalid_argument`. -/
theorem questionMark_not_invalid :
    ¬ ConstructsOrInvalid ⟨fun _ _ => true, [0]⟩ (fun _ => questionMark)
      "cpu/mem-loads/" := by
  intro constructs
  obtain ⟨rounds, result, ended, good⟩ := constructs
  cases (show sysfsEventAttr _ (fun _ => questionMark) rounds
    "cpu/mem-loads/" = some (.error (.number .invalidArgument)) from rfl).symm.trans
      ended
  exact not_eventOrInvalid_number _ good

end Lo2s
