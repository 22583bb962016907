import Lo2s.Foundation.LinkedRegistry
import Lo2s.InternLineInfo
import Lo2s.MergeProcess

/-!
# Definitions of calling contexts

The registry of a trace keeps the definitions of calling contexts by their
references.  Addresses, kernels and regions are defined below the context they
have been met in.  Threads, processes and system calls are defined once, without
a parent, whatever they are met in.  The registry itself belongs to the trace
library, of which only the laws of a registry of linked definitions are used.
-/

namespace Lo2s

open Foundation KeyOrder

/-- The key that a region is kept under. -/
inductive CctxRegion where
  | thread (t : Thread)
  | process (p : Process)
  | syscall (id : Int64)
  | lineInfo (info : LineInfo)
  deriving DecidableEq, Repr

/-- What a definition shows: its region, and the property `ip`. -/
structure CctxLabel where
  region : CctxRegion
  ip : Option UInt64
  deriving DecidableEq, Repr

/-- The label of what is found under a key. -/
def CctxLabel.ofKey (region : CctxRegion) : CctxLabel := ⟨region, none⟩

/-- `otf2::definition::calling_context` in the registry of the trace library, by
`OTF2_CallingContextRef`. -/
structure CctxLibrary (ρ : Type u) (δ : Type v) extends
    LinkedRegistry ρ CctxRegion δ UInt32 CctxLabel where
  ref_defined : ∀ definition, ref definition ≠ undefinedRef

/-- Every reference but the undefined one can be given away. -/
def CctxLibrary.Lawful {ρ : Type u} {δ : Type v} (library : CctxLibrary ρ δ) :
    Prop :=
  library.toLinkedRegistry.Lawful 4294967295

/-- Where names come from: `lineInfo` is what the function map of a process has
for an address, `gpuLineInfo` what the names of the kernels of a process have,
and `threadName` reads `thread_names_`. -/
structure CctxNames where
  lineInfo : Process → UInt64 → LineInfo
  gpuLineInfo : Process → UInt64 → Option LineInfo
  threadName : Thread → Option String

/-- What has been defined, and the processes that have a function map. -/
structure CctxDefinitions (ρ : Type u) where
  registry : ρ
  functionMaps : List Process

/-- The `switch` of `cctx_for_openmp`. -/
def ompName (cctx : OMPTCctx) : String :=
  if cctx.type = 0 then
    "ompt::parallel(" ++ toString cctx.numThreads.toNat ++ ")"
  else if cctx.type = 1 then "ompt::master"
  else if cctx.type = 2 then "ompt::sync"
  else if cctx.type = 3 then "ompt::loop"
  else if cctx.type = 4 then "ompt::workshare"
  else if cctx.type = 5 then "ompt::other"
  else ""

namespace CctxNames

variable (names : CctxNames)

/-- The `LineInfo` of `cctx_for_openmp`; `known` tells whether the process has a
function map. -/
def openmpLineInfo (known : Bool) (p : Process) (cctx : OMPTCctx) : LineInfo :=
  let lineInfo :=
    if known then names.lineInfo p cctx.addr else .forUnknownFunction
  let lineInfo :=
    if lineInfo.eq .forUnknownFunction then
      match names.threadName ⟨p.pid⟩ with
      | some name => { lineInfo with dso := name }
      | none => lineInfo
    else lineInfo
  if lineInfo.eq .forUnknownFunction then
    { lineInfo with function := ompName cctx }
  else { lineInfo with function := ompName cctx ++ " " ++ lineInfo.function }

end CctxNames

namespace CctxLibrary

variable {ρ : Type u} {δ : Type v} (library : CctxLibrary ρ δ)
  (names : CctxNames)

/-- `registry_.create<calling_context>` without a key. -/
def createBelow (region : CctxRegion) (ip : Option UInt64) (parent : δ)
    (d : CctxDefinitions ρ) : δ × CctxDefinitions ρ :=
  let r := library.create none ⟨region, ip⟩ (some parent) d.registry
  (r.1, { d with registry := r.2 })

/-- The definition under a key, made if need be. -/
def emplaceKeyed (region : CctxRegion) (d : CctxDefinitions ρ) :
    δ × CctxDefinitions ρ :=
  let r := library.emplace region (.ofKey region) d.registry
  (r.1, { d with registry := r.2 })

/-- `cctx_for_address`, which makes a function map for a process without one. -/
def cctxForAddress (addr : UInt64) (p : Process) (parent : δ)
    (d : CctxDefinitions ρ) : δ × CctxDefinitions ρ :=
  library.createBelow (.lineInfo (names.lineInfo p addr)) (some addr) parent
    { d with functionMaps :=
        if p ∈ d.functionMaps then d.functionMaps else d.functionMaps ++ [p] }

def cctxForGpuKernel (kernelId : UInt64) (p : Process) (parent : δ)
    (d : CctxDefinitions ρ) : δ × CctxDefinitions ρ :=
  let lineInfo := (names.gpuLineInfo p kernelId).getD .forUnknownFunction
  library.createBelow (.lineInfo lineInfo) none parent d

/-- `cctx_for_openmp`, which does not make a function map. -/
def cctxForOpenmp (cctx : OMPTCctx) (p : Process) (parent : δ)
    (d : CctxDefinitions ρ) : δ × CctxDefinitions ρ :=
  library.createBelow
    (.lineInfo (names.openmpLineInfo (p ∈ d.functionMaps) p cctx)) none parent d

/-- `cctx_for_thread`; `emplace_thread` makes the definition already. -/
def cctxForThread (thread : Thread) :
    CctxDefinitions ρ → δ × CctxDefinitions ρ :=
  library.emplaceKeyed (.thread thread)

def cctxForProcess (process : Process) :
    CctxDefinitions ρ → δ × CctxDefinitions ρ :=
  library.emplaceKeyed (.process process)

def cctxForSyscall (syscallId : Int64) :
    CctxDefinitions ρ → δ × CctxDefinitions ρ :=
  library.emplaceKeyed (.syscall syscallId)

/-- The library as what `merge_nodes` makes definitions with. -/
def registry : CctxRegistry (CctxDefinitions ρ) δ where
  ref := library.ref
  ref_defined := library.ref_defined
  address := library.cctxForAddress names
  gpuKernel := library.cctxForGpuKernel names
  openmp := library.cctxForOpenmp names
  thread thread _ := library.cctxForThread thread
  process := library.cctxForProcess
  syscall := library.cctxForSyscall

end CctxLibrary

/-- What is shown of a context that is met in a process. -/
inductive Shown (names : CctxNames) (p : Process) (cctx : EnteredContext) :
    CctxLabel → Prop where
  | thread : cctx.context.type = .thread →
      Shown names p cctx ⟨.thread cctx.context.t, none⟩
  | process : cctx.context.type = .process →
      Shown names p cctx ⟨.process cctx.context.p, none⟩
  | syscall : cctx.context.type = .syscall →
      Shown names p cctx ⟨.syscall cctx.context.syscallId.toInt64, none⟩
  | address : cctx.context.type = .sampleAddr →
      Shown names p cctx ⟨.lineInfo (names.lineInfo p cctx.context.addr),
        some cctx.context.addr⟩
  | gpuKernel : cctx.context.type = .gpuKernel →
      Shown names p cctx ⟨.lineInfo ((names.gpuLineInfo p
        cctx.context.kernelId).getD .forUnknownFunction), none⟩
  | openmp (known : Bool) : cctx.context.type = .openmp →
      Shown names p cctx
        ⟨.lineInfo (names.openmpLineInfo known p cctx.context.ompCctx), none⟩

namespace CctxLibrary

open LinkedRegistry

variable {ρ : Type u} {δ : Type v} {library : CctxLibrary ρ δ}
  {d next : CctxDefinitions ρ}

/-- What is found under a key shows it. -/
def Sound (library : CctxLibrary ρ δ) (d : CctxDefinitions ρ) : Prop :=
  library.toLinkedRegistry.Sound CctxLabel.ofKey d.registry

/-- There are references for all definitions. -/
def Fits (library : CctxLibrary ρ δ) (d : CctxDefinitions ρ) : Prop :=
  library.size d.registry ≤ 4294967295

/-- A reader of `ref` sees these labels. -/
def Leads (library : CctxLibrary ρ δ) (d : CctxDefinitions ρ) (ref : UInt32)
    (labels : List CctxLabel) : Prop :=
  library.toLinkedRegistry.Leads d.registry ref labels

/-- Definitions are never taken back. -/
def Grows (library : CctxLibrary ρ δ) (d next : CctxDefinitions ρ) : Prop :=
  library.toLinkedRegistry.Grows 4294967295 d.registry next.registry

/-- The definition of a context has been found or made. -/
structure Defines (library : CctxLibrary ρ δ) (names : CctxNames)
    (cctx : EnteredContext) (parent : Option δ) (p : Process)
    (d : CctxDefinitions ρ) (definition : δ) (next : CctxDefinitions ρ) :
    Prop where
  sound : library.Sound next
  shown : ∃ label, Shown names p cctx label ∧
    (¬ cctx.NeedsParent → library.Leads next (library.ref definition) [label]) ∧
    (cctx.NeedsParent → ∀ above labels, parent = some above →
      library.Leads d (library.ref above) labels →
        library.Leads next (library.ref definition) (labels ++ [label]))

variable {names : CctxNames} {cctx : EnteredContext} {parent : Option δ}
  {p : Process} {definition : δ}

theorem defines_below {region : CctxRegion} {ip : Option UInt64} {above : δ}
    {maps : List Process} (lawful : library.Lawful) (sound : library.Sound d)
    (needs : cctx.NeedsParent) (shown : Shown names p cctx ⟨region, ip⟩)
    (made : library.createBelow region ip above { d with functionMaps := maps } =
      (definition, next)) (fits : library.Fits next) :
    Defines library names cctx (some above) p d definition next := by
  cases made
  refine ⟨Sound.create sound lawful _ _ fits, _, shown,
    fun outermost => absurd needs outermost, ?_⟩
  rintro _ _ labels ⟨rfl⟩ leads
  exact Lawful.leads_create_below lawful none ⟨region, ip⟩ leads fits

theorem defines_emplace {region : CctxRegion} (lawful : library.Lawful)
    (sound : library.Sound d) (outermost : ¬ cctx.NeedsParent)
    (shown : Shown names p cctx ⟨region, none⟩)
    (defined : library.emplaceKeyed region d = (definition, next))
    (fits : library.Fits next) :
    Defines library names cctx parent p d definition next := by
  cases defined
  obtain ⟨soundNext, leads⟩ := Sound.emplace sound lawful region fits
  exact ⟨soundNext, _, shown, fun _ => leads,
    fun needs => absurd needs outermost⟩

/-- Whatever is defined shows its context, below what its parent shows if it
needs one. -/
theorem define_spec (lawful : library.Lawful) (sound : library.Sound d)
    (defined : (library.registry names).define cctx parent p d =
      .ok (definition, next)) (fits : library.Fits next) :
    Defines library names cctx parent p d definition next := by
  unfold CctxRegistry.define at defined
  split at defined
  · next kind =>
      exact defines_below lawful sound (.inl kind) (.address kind)
        (Except.ok.inj defined) fits
  · next kind =>
      exact defines_below lawful sound (.inr (.inl kind)) (.gpuKernel kind)
        (Except.ok.inj defined) fits
  · next kind =>
      exact defines_below lawful sound (.inr (.inr kind)) (.openmp _ kind)
        (Except.ok.inj defined) fits
  · cases defined
  · cases defined
  · cases defined
  · next kind =>
      have outermost : ¬ cctx.NeedsParent := by
        simp [EnteredContext.NeedsParent, kind]
      exact defines_emplace lawful sound outermost (.thread kind)
        (Except.ok.inj defined) fits
  · next kind =>
      have outermost : ¬ cctx.NeedsParent := by
        simp [EnteredContext.NeedsParent, kind]
      exact defines_emplace lawful sound outermost (.process kind)
        (Except.ok.inj defined) fits
  · next kind =>
      have outermost : ¬ cctx.NeedsParent := by
        simp [EnteredContext.NeedsParent, kind]
      exact defines_emplace lawful sound outermost (.syscall kind)
        (Except.ok.inj defined) fits
  · cases defined

/-- `OTF2_CallingContextRef`, without the undefined one. -/
abbrev CctxRef := Fin 4294967295

/-- The reference with a number. -/
def refOf (number : Nat) : CctxRef :=
  ⟨number % 4294967295, Nat.mod_lt number (by decide)⟩

theorem ofNat_ne_undefinedRef (ref : CctxRef) :
    UInt32.ofNat ref.val ≠ undefinedRef := by
  intro same
  have numbers := congrArg UInt32.toNat same
  have small := ref.isLt
  have largest : undefinedRef.toNat = 4294967295 := by decide
  rw [UInt32.toNat_ofNat', largest] at numbers
  omega

/-- The library whose definitions are their references, in the order in which
they have been made. -/
def ofTable : CctxLibrary (Table CctxRegion CctxRef UInt32 CctxLabel) CctxRef where
  toLinkedRegistry := LinkedRegistry.ofTable CctxRegion CctxLabel
    refOf (fun ref => UInt32.ofNat ref.val) UInt32.toNat
  ref_defined := ofNat_ne_undefinedRef

theorem ofTable_lawful : ofTable.Lawful := by
  apply LinkedRegistry.ofTable_lawful
  intro number small
  have kept : (refOf number).val = number := Nat.mod_eq_of_lt small
  rw [UInt32.toNat_ofNat', kept]
  omega

/-- Before anything is defined. -/
def empty : CctxDefinitions (Table CctxRegion CctxRef UInt32 CctxLabel) :=
  ⟨⟨[], ∅⟩, []⟩

theorem sound_empty : ofTable.Sound empty := by
  intro region definition found
  cases found

end CctxLibrary

end Lo2s
