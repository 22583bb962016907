import Lo2s.Kallsyms
import Mathlib.Order.Bounds.Defs

/-!
# Kernel symbols are resolved exactly

The sorted symbols are gone through with the previous one in hand, whose range
ends where the next one starts.  What is kept is that each address up to the
previous symbol is in the range of the last symbol before it.
-/

namespace Lo2s

open Foundation Scan OrderedMap

/-- The first of the symbols with its address. -/
def First (syms : List KernelSymbol) (sym : KernelSymbol) : Prop :=
  ∃ earlier later, syms = earlier ++ sym :: later ∧
    ∀ other ∈ earlier, other.address.value ≠ sym.address.value

theorem First.mem {syms : List KernelSymbol} {sym : KernelSymbol}
    (first : First syms sym) : sym ∈ syms := by
  obtain ⟨earlier, later, rfl, _⟩ := first
  exact List.mem_append_right _ List.mem_cons_self

theorem First.append {syms : List KernelSymbol} {sym : KernelSymbol}
    (first : First syms sym) (next : KernelSymbol) :
    First (syms ++ [next]) sym := by
  obtain ⟨earlier, later, rfl, others⟩ := first
  exact ⟨earlier, later ++ [next], by simp, others⟩

/-- The entries after some symbols. -/
structure Collected (syms : List KernelSymbol)
    (entries : List (Address × List Char)) : Prop where
  sorted : Sorted Address.lt entries
  sound : ∀ x ∈ entries, ∃ sym, First syms sym ∧ x = (sym.addr, sym.name)
  complete : ∀ sym ∈ syms, ∃ x ∈ entries, x.1 = sym.addr

theorem Collected.nil : Collected [] [] where
  sorted := List.Pairwise.nil
  sound := fun _ absent => nomatch absent
  complete := fun _ absent => nomatch absent

section

variable {syms : List KernelSymbol} {entries : List (Address × List Char)}

theorem Collected.emplace (collected : Collected syms entries)
    (sym : KernelSymbol) :
    Collected (syms ++ [sym])
      (emplace Address.lt sym.addr sym.name entries).1 := by
  by_cases taken : ∃ x ∈ entries, x.1 = sym.addr
  · -- The entry that is there is of an earlier line, and `emplace` keeps it.
    obtain ⟨x, member, same⟩ := taken
    have overlap : Overlap Address.lt sym.addr x.1 := by
      rw [same]
      exact ⟨by simp [Address.lt], by simp [Address.lt]⟩
    rw [emplace_overlap Address.lt_trans collected.sorted member overlap]
    constructor
    case sorted => exact collected.sorted
    case sound =>
      intro y inside
      obtain ⟨other, first, equal⟩ := collected.sound y inside
      exact ⟨other, first.append sym, equal⟩
    case complete =>
      intro other listed
      rcases List.mem_append.mp listed with earlier | this
      · exact collected.complete other earlier
      · rw [List.mem_singleton.mp this]
        exact ⟨x, member, same⟩
  · have apart : ∀ x ∈ entries, Address.lt x.1 sym.addr = true ∨
        Address.lt sym.addr x.1 = true := by
      intro x member
      simp only [Address.lt_iff, UInt64.lt_iff_toNat_lt]
      exact Nat.lt_or_gt_of_ne fun same =>
        taken ⟨x, member, UInt64.toNat_inj.mp same⟩
    obtain ⟨result, inserted, sorted, members⟩ :=
      emplace_spec Address.lt_trans collected.sorted apart sym.name
    rw [inserted]
    constructor
    case sorted => exact sorted
    case sound =>
      intro y inside
      rcases (members y).mp inside with rfl | old
      · refine ⟨sym, ⟨syms, [], rfl, fun other listed same => ?_⟩, rfl⟩
        obtain ⟨x, member, equal⟩ := collected.complete other listed
        refine taken ⟨x, member, equal.trans (UInt64.toNat_inj.mp ?_)⟩
        rw [other.toNat_addr, sym.toNat_addr, same]
      · obtain ⟨other, first, equal⟩ := collected.sound y old
        exact ⟨other, first.append sym, equal⟩
    case complete =>
      intro other listed
      rcases List.mem_append.mp listed with earlier | this
      · obtain ⟨x, member, equal⟩ := collected.complete other earlier
        exact ⟨x, (members x).mpr (.inr member), equal⟩
      · rw [List.mem_singleton.mp this]
        exact ⟨_, (members _).mpr (.inl rfl), rfl⟩

end

def textSymbols (lines : List KernelSymbol) : List KernelSymbol :=
  lines.filter fun sym => sym.IsText

/-- The text symbols of the kernel itself. -/
def kernelText (lines : List KernelSymbol) : List KernelSymbol :=
  lines.filter fun sym => sym.IsKernelText

theorem Kallsyms.readLines_text {lines syms : List KernelSymbol}
    {entries : List (Address × List Char)} (collected : Collected syms entries)
    (nonzero : ∀ sym ∈ kernelText lines, sym.address.value ≠ 0) :
    ∃ result, readLines (lines.map KernelSymbol.text) entries =
        .ok (some result) ∧ Collected (syms ++ kernelText lines) result := by
  induction lines generalizing syms entries with
  | nil => exact ⟨entries, rfl, by simpa [kernelText] using collected⟩
  | cons sym lines induction =>
      rw [List.map_cons, readLines, KernelSymbol.text, String.toList_ofList,
        sym.ksymRegex_line]
      by_cases kernel : sym.IsKernelText
      · have split : kernelText (sym :: lines) = sym :: kernelText lines :=
          List.filter_cons_of_pos (decide_eq_true kernel)
        rw [split] at nonzero ⊢
        have notZero : sym.addr ≠ 0 := by
          intro zero
          apply nonzero sym List.mem_cons_self
          rw [← sym.toNat_addr, zero]
          rfl
        rw [if_pos kernel, List.append_cons]
        simp only [sym.stoull_digits]
        obtain ⟨result, read, all⟩ := induction (collected.emplace sym)
          fun other listed => nonzero other (List.mem_cons_of_mem _ listed)
        exact ⟨result, (if_neg notZero).trans read, all⟩
      · have split : kernelText (sym :: lines) = kernelText lines :=
          List.filter_cons_of_neg (by simpa using kernel)
        rw [split] at nonzero ⊢
        rw [if_neg kernel]
        exact induction collected nonzero

/-- Each address from the start up to a bound is in the range of the last
symbol before it. -/
structure Labelled (entries : List (Address × List Char))
    (start bound : Address) (map : RangeMap (List Char)) : Prop where
  sorted : Sorted Range.lt map
  below : ∀ x ∈ map, x.1.end_ ≤ bound
  exact : ∀ addr, start ≤ addr → addr < bound →
    ∃ x ∈ map, x.1.Contains addr ∧ (x.1.start, x.2) ∈ entries ∧
      ∀ y ∈ entries, y.1 ≤ addr → y.1 ≤ x.1.start

namespace Labelled

variable {entries : List (Address × List Char)} {start bound : Address}
  {map : RangeMap (List Char)}

theorem single (entry : Address × List Char) :
    Labelled [entry] entry.1 entry.1 [] where
  sorted := List.Pairwise.nil
  below := fun _ absent => nomatch absent
  exact := fun _ lower upper => absurd upper (UInt64.not_lt.mpr lower)

theorem append (labelled : Labelled entries start bound map)
    {next : Address × List Char} (above : bound ≤ next.1) :
    Labelled (entries ++ [next]) start bound map where
  sorted := labelled.sorted
  below := labelled.below
  exact := by
    intro addr lower upper
    obtain ⟨x, member, inside, labels, last⟩ := labelled.exact addr lower upper
    refine ⟨x, member, inside, List.mem_append_left _ labels, ?_⟩
    intro y listed before
    rcases List.mem_append.mp listed with old | new
    · exact last y old before
    · rw [List.mem_singleton.mp new] at before
      have behind := UInt64.lt_of_lt_of_le upper above
      exact absurd before (UInt64.not_le.mpr behind)

theorem extend (labelled : Labelled entries start bound map) {name : List Char}
    (member : (bound, name) ∈ entries) (last : ∀ y ∈ entries, y.1 ≤ bound)
    {next : Address} (ordered : bound ≤ next) :
    Labelled entries start next (map.emplace ⟨bound, next, ordered⟩ name) := by
  let range : Range := ⟨bound, next, ordered⟩
  have apart : ∀ x ∈ map,
      x.1.end_ ≤ range.start ∨ range.end_ ≤ x.1.start :=
    fun x listed => .inl (labelled.below x listed)
  obtain ⟨sorted, members⟩ :=
    RangeMap.emplace_spec labelled.sorted apart name
  constructor
  case sorted => exact sorted
  case below =>
    intro x listed
    rcases (members x).mp listed with rfl | old
    · exact UInt64.le_refl _
    · exact UInt64.le_trans (labelled.below x old) ordered
  case exact =>
    intro addr lower upper
    -- Below the old bound the old ranges answer, from there on the new one.
    by_cases before : addr < bound
    · obtain ⟨x, old, spec⟩ := labelled.exact addr lower before
      exact ⟨x, (members x).mpr (.inr old), spec⟩
    · refine ⟨_, (members _).mpr (.inl rfl), ⟨?_, upper⟩, member, ?_⟩
      · exact UInt64.not_lt.mp before
      · exact fun y listed _ => last y listed

end Labelled

namespace Kallsyms

/-- The loop after some of the sorted symbols. -/
structure Reached (entries : List (Address × List Char)) (loop : KsymLoop) :
    Prop where
  member : (loop.prev, loop.symStr) ∈ entries
  last : ∀ y ∈ entries, y.1 ≤ loop.prev
  start : ∀ y ∈ entries, loop.kallsyms.start ≤ y.1
  started : ∃ y ∈ entries, y.1 = loop.kallsyms.start
  labelled : Labelled entries loop.kallsyms.start loop.prev loop.kallsyms.symbols

variable {entries : List (Address × List Char)} {loop : KsymLoop}

theorem Reached.first (entry : Address × List Char) :
    Reached [entry] ⟨{ init with start := entry.1 }, entry.2, entry.1⟩ where
  member := List.mem_singleton.mpr rfl
  last := by simp
  start := by simp
  started := ⟨entry, List.mem_singleton.mpr rfl, rfl⟩
  labelled := .single entry

theorem Reached.round (reached : Reached entries loop) (notZero : loop.prev ≠ 0)
    {entry : Address × List Char} (above : loop.prev < entry.1) :
    ∃ result, round loop entry = .ok result ∧ result.prev = entry.1 ∧
      Reached (entries ++ [entry]) result := by
  have ordered := UInt64.le_of_lt above
  let range : Range := ⟨loop.prev, entry.1, ordered⟩
  refine ⟨⟨{ loop.kallsyms with
    symbols := loop.kallsyms.symbols.emplace range loop.symStr },
      entry.2, entry.1⟩, ?_, rfl, ?_⟩
  · have further : loop.prev ≠ 0 ∧ loop.prev ≠ entry.1 :=
      ⟨notZero, UInt64.ne_of_lt above⟩
    rw [Kallsyms.round, if_pos further, Range.ofBounds_eq_ok ordered]
    rfl
  · constructor
    case member => exact List.mem_append_right _ List.mem_cons_self
    case last =>
      intro y listed
      rcases List.mem_append.mp listed with old | new
      · exact UInt64.le_trans (reached.last y old) ordered
      · rw [List.mem_singleton.mp new]
        exact UInt64.le_refl _
    case start =>
      intro y listed
      rcases List.mem_append.mp listed with old | new
      · exact reached.start y old
      · rw [List.mem_singleton.mp new]
        exact UInt64.le_trans (reached.start _ reached.member) ordered
    case started =>
      obtain ⟨y, old, same⟩ := reached.started
      exact ⟨y, List.mem_append_left _ old, same⟩
    case labelled =>
      have wider := reached.labelled.extend reached.member reached.last ordered
      exact wider.append (UInt64.le_refl _)

theorem Reached.rounds {later : List (Address × List Char)}
    (reached : Reached entries loop) (notZero : loop.prev ≠ 0)
    (above : ∀ entry ∈ later, loop.prev < entry.1)
    (sorted : Sorted Address.lt later) :
    ∃ result, rounds later loop = .ok result ∧
      Reached (entries ++ later) result := by
  induction later generalizing entries loop with
  | nil => exact ⟨loop, rfl, by simpa using reached⟩
  | cons entry later induction =>
      have next := above entry List.mem_cons_self
      obtain ⟨result, done, prev, reachedNext⟩ := reached.round notZero next
      have nextNotZero : result.prev ≠ 0 := by
        rw [prev]
        exact (UInt64.ne_of_lt
          (UInt64.lt_of_le_of_lt UInt64.zero_le next)).symm
      have nextAbove : ∀ other ∈ later, result.prev < other.1 := by
        intro other listed
        rw [prev]
        exact Address.lt_iff.mp (List.rel_of_pairwise_cons sorted listed)
      obtain ⟨last, finished, all⟩ :=
        induction reachedNext nextNotZero nextAbove sorted.of_cons
      rw [List.append_cons, Kallsyms.rounds, done]
      exact ⟨last, finished, all⟩

/-- What the constructor makes of the sorted symbols. -/
structure Built (entries : List (Address × List Char)) (kallsyms : Kallsyms) :
    Prop where
  start : ∀ y ∈ entries, kallsyms.start ≤ y.1
  started : entries = [] ∧ kallsyms = init ∨ ∃ y ∈ entries, y.1 = kallsyms.start
  labelled : Labelled entries kallsyms.start .max kallsyms.symbols

theorem close_spec (reached : Reached entries loop)
    (named : ∀ y ∈ entries, y.2 ≠ []) :
    ∃ kallsyms, close loop = .ok kallsyms ∧ Built entries kallsyms := by
  have ordered := Address.le_max loop.prev
  let range : Range := ⟨loop.prev, .max, ordered⟩
  refine ⟨{ loop.kallsyms with
    symbols := loop.kallsyms.symbols.emplace range loop.symStr }, ?_, ?_⟩
  · rw [close, if_neg (named _ reached.member), Range.ofBounds_eq_ok ordered]
    rfl
  · constructor
    case start => exact reached.start
    case started => exact .inr reached.started
    case labelled =>
      exact reached.labelled.extend reached.member reached.last ordered

theorem rounds_spec (sorted : Sorted Address.lt entries)
    (nonzero : ∀ y ∈ entries, y.1 ≠ 0) (named : ∀ y ∈ entries, y.2 ≠ []) :
    ∃ kallsyms, (rounds entries ⟨init, [], 0⟩ >>= close) = .ok kallsyms ∧
      Built entries kallsyms := by
  cases entries with
  | nil =>
      refine ⟨init, rfl, ⟨by simp, .inl ⟨rfl, rfl⟩, .nil, by simp [init], ?_⟩⟩
      exact fun addr lower upper => absurd upper (UInt64.not_lt.mpr lower)
  | cons entry later =>
      have above : ∀ other ∈ later, entry.1 < other.1 := fun other listed =>
        Address.lt_iff.mp (List.rel_of_pairwise_cons sorted listed)
      obtain ⟨loop, done, reached⟩ := (Reached.first entry).rounds
        (nonzero entry List.mem_cons_self) above sorted.of_cons
      have first : round ⟨init, [], 0⟩ entry =
          .ok ⟨{ init with start := entry.1 }, entry.2, entry.1⟩ :=
        if_neg fun started => started.1 rfl
      obtain ⟨kallsyms, closed, built⟩ := close_spec reached named
      refine ⟨kallsyms, ?_, built⟩
      rw [rounds, first]
      change (rounds later _ >>= close) = _
      rw [done]
      exact closed

/-- The symbol with the greatest address not above the given one, the first of
them that is listed. -/
def Nearest (syms : List KernelSymbol) (addr : Address) (sym : KernelSymbol) :
    Prop :=
  First syms sym ∧ sym.addr ≤ addr ∧
    ∀ other ∈ syms, other.addr ≤ addr → other.addr ≤ sym.addr

/-- The start is the smallest address of a symbol, and each address from there
on is resolved to the nearest symbol. -/
structure Exact (syms : List KernelSymbol) (kallsyms : Kallsyms) : Prop where
  start : syms ≠ [] →
    IsLeast {addr | ∃ sym ∈ syms, addr = sym.addr} kallsyms.start
  lookup : ∀ addr, kallsyms.start ≤ addr → addr < Address.max →
    ∃ sym, Nearest syms addr sym ∧
      kallsyms.lookupLineInfo (addr - kallsyms.start) = sym.info

theorem Built.exact {syms : List KernelSymbol} {kallsyms : Kallsyms}
    (collected : Collected syms entries) (built : Built entries kallsyms) :
    Exact syms kallsyms := by
  constructor
  case start =>
    intro nonempty
    obtain ⟨some_sym, listed⟩ := List.exists_mem_of_ne_nil syms nonempty
    obtain ⟨x, member, _⟩ := collected.complete some_sym listed
    rcases built.started with ⟨empty, _⟩ | ⟨y, started, same⟩
    · rw [empty] at member
      cases member
    · constructor
      · obtain ⟨sym, first, rfl⟩ := collected.sound y started
        exact ⟨sym, first.mem, same.symm⟩
      · rintro _ ⟨sym, listed, rfl⟩
        obtain ⟨x, member, equal⟩ := collected.complete sym listed
        rw [← equal]
        exact built.start x member
  case lookup =>
    intro addr lower upper
    obtain ⟨x, member, inside, labels, last⟩ :=
      built.labelled.exact addr lower upper
    obtain ⟨sym, first, equal⟩ := collected.sound _ labels
    obtain ⟨startAddr, name⟩ := Prod.mk.inj equal
    refine ⟨sym, ⟨first, ?_, ?_⟩, ?_⟩
    · rw [← startAddr]
      exact inside.1
    · intro other listed before
      obtain ⟨y, stored, same⟩ := collected.complete other listed
      rw [← same, ← startAddr]
      exact last y stored (by rwa [same])
    · have found : kallsyms.symbols.find
          (addr - kallsyms.start + kallsyms.start) = some x := by
        rw [UInt64.sub_add_cancel]
        exact RangeMap.find_eq_some built.labelled.sorted member inside
      rw [lookupLineInfo, found]
      simp only [name, sym.cStr_name]
      rfl

/-- Kernel symbols are resolved exactly.  Of the text symbols, those that belong
to a module are left out. -/
theorem ofFile_exact (lines : List KernelSymbol)
    (nonzero : ∀ sym ∈ kernelText lines, sym.address.value ≠ 0) :
    ∃ kallsyms, ofFile (some (lines.map KernelSymbol.text)) = .ok kallsyms ∧
      Exact (kernelText lines) kallsyms := by
  obtain ⟨entries, read, collected⟩ := readLines_text .nil nonzero
  rw [List.nil_append] at collected
  have spec : ∀ y ∈ entries, y.1 ≠ 0 ∧ y.2 ≠ [] := by
    intro y member
    obtain ⟨sym, first, rfl⟩ := collected.sound y member
    refine ⟨fun zero => ?_, sym.name_text.1⟩
    apply nonzero sym first.mem
    rw [← sym.toNat_addr]
    exact congrArg UInt64.toNat zero
  obtain ⟨kallsyms, made, built⟩ := rounds_spec collected.sorted
    (fun y member => (spec y member).1) fun y member => (spec y member).2
  refine ⟨kallsyms, ?_, built.exact collected⟩
  rw [ofFile, read]
  exact made

def schedule : KernelSymbol where
  address := ⟨"1000".toList, by decide, List.all_eq_true.mp (by decide)⟩
  type := 'T'
  name := "schedule".toList
  moduleName := none
  address_lt := by decide
  name_text := ⟨by decide, by simp [isSpace]⟩

def moduleInit : KernelSymbol where
  address := ⟨"2000".toList, by decide, List.all_eq_true.mp (by decide)⟩
  type := 't'
  name := "e1000_init".toList
  moduleName := some "e1000".toList
  address_lt := by decide
  name_text := ⟨by decide, by simp [isSpace]⟩

theorem ofFile_exact_schedule :
    ∃ kallsyms, ofFile (some ([moduleInit, schedule].map KernelSymbol.text)) =
        .ok kallsyms ∧ Exact (kernelText [moduleInit, schedule]) kallsyms :=
  ofFile_exact [moduleInit, schedule] (by decide)

/-- The symbol of the module is resolved to that of the kernel before it. -/
theorem module_symbol_skipped :
    (∀ sym ∈ textSymbols [moduleInit, schedule], sym.address.value ≠ 0) ∧
      ∀ kallsyms,
        ofFile (some ([moduleInit, schedule].map KernelSymbol.text)) =
          .ok kallsyms →
        ¬ Exact (textSymbols [moduleInit, schedule]) kallsyms := by
  refine ⟨by decide, fun kallsyms made exact => ?_⟩
  have answer : (ofFile (some ([moduleInit, schedule].map
      KernelSymbol.text))).map (fun kallsyms => (kallsyms.start,
        kallsyms.lookupLineInfo (0x2000 - kallsyms.start))) =
      .ok (0x1000, schedule.info) := by
    decide +kernel
  rw [made] at answer
  obtain ⟨start, resolved⟩ := Prod.mk.inj (Except.ok.inj answer)
  have inside : kallsyms.start ≤ 0x2000 := by
    rw [start]
    decide
  obtain ⟨sym, ⟨first, _, greatest⟩, named⟩ :=
    exact.lookup 0x2000 inside (by decide)
  have above := greatest moduleInit (.head _) (by decide)
  have listed : sym ∈ [moduleInit, schedule] := first.mem
  rw [resolved] at named
  rcases List.mem_cons.mp listed with rfl | listed
  · exact absurd named (by decide)
  · rw [List.mem_singleton.mp listed] at above
    exact absurd above (by decide)

end Kallsyms

end Lo2s
