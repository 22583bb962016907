import Lo2s.MemoryMapEmplace

/-!
# File offsets of split mappings

An address is resolved at its distance from the start of the entry found for
it, plus the page offset of that entry.  Where `emplace` moves the start of an
entry to the end of the new mapping it keeps the page offset, so the addresses
behind such a cut are resolved at another offset than before.
-/

namespace Lo2s

open Foundation EmplaceCall

/-- The offset `cctx_for_address` hands to the resolver of a mapping. -/
def Mapping.offsetOf (m : Mapping) (addr : Address) : Address :=
  addr - m.range.start + m.pgoff

theorem Mapping.offsetOf_inj {left right : Mapping}
    (samePgoff : left.pgoff = right.pgoff) {addr : Address} :
    left.offsetOf addr = right.offsetOf addr ↔
      left.range.start = right.range.start := by
  unfold offsetOf
  rw [samePgoff]
  constructor
  · intro same
    grind
  · intro same
    rw [same]

namespace MemoryMap

variable {τ : Type}

/-- `new` ends inside `old`, behind its start. -/
def CutsStart (new old : Mapping) : Prop :=
  old.range.start < new.range.end_ ∧ new.range.end_ < old.range.end_

instance (new old : Mapping) : Decidable (CutsStart new old) :=
  inferInstanceAs (Decidable (_ ∧ _))

/-- An address that the new mapping leaves to the mapping it resolved to is
resolved at the offset it had. -/
def KeepsOffsets (new : Mapping) (map result : MemoryMap τ) : Prop :=
  ∀ addr before after, ¬ new.Contains addr →
    entryAt addr map = some before → entryAt addr result = some after →
      after.1.offsetOf addr = before.1.offsetOf addr

/-- Each address that resolves does so to the last mapping that contains it, at
the offset that mapping assigns to it. -/
def OwnOffsets (calls : List (EmplaceCall τ)) (map : MemoryMap τ) : Prop :=
  ∀ addr found, entryAt addr map = some found →
    ∃ call, lastContaining calls addr = some call ∧
      found.2 = call.resolver ∧
        found.1.offsetOf addr = call.mapping.offsetOf addr

namespace Emplaced

variable {call : EmplaceCall τ} {map result : MemoryMap τ}

theorem start_of_cut
    (effect : Emplaced call.mapping call.resolver map result)
    {whole x : Mapping × τ} (piece : Piece call.mapping whole x)
    (stored : x ∈ result) (contains : x.1.Contains call.mapping.range.end_) :
    x.1.range.start = call.mapping.range.end_ := by
  rcases piece.start with same | ⟨_, atEnd⟩
  · by_contra notAtEnd
    -- Otherwise the piece would overlap the new mapping.
    have below : x.1.range.start < call.mapping.range.end_ :=
      UInt64.lt_of_le_of_ne contains.1 notAtEnd
    have nonempty := call.nonempty
    obtain ⟨_, upper⟩ := contains
    have notNew : x ≠ (call.mapping, call.resolver) := by
      rintro rfl
      exact absurd upper (UInt64.lt_irrefl _)
    apply notNew
    by_cases inFront : x.1.range.start ≤ call.mapping.range.start
    · apply eq_of_contains effect.sorted stored _ effect.stored
        ⟨UInt64.le_refl _, nonempty⟩
      exact ⟨inFront, UInt64.lt_trans nonempty upper⟩
    · apply eq_of_contains effect.sorted stored
        ⟨UInt64.le_refl _, UInt64.lt_trans below upper⟩ effect.stored
      exact ⟨UInt64.le_of_lt (UInt64.not_le.mp inFront), below⟩
  · exact atEnd

/-- One call keeps the offsets exactly when it cuts no stored mapping behind
its start. -/
theorem keepsOffsets_iff
    (effect : Emplaced call.mapping call.resolver map result)
    (sorted : Sorted map) :
    KeepsOffsets call.mapping map result ↔
      ∀ x ∈ map, ¬ CutsStart call.mapping x.1 := by
  constructor
  · intro keeps whole member both
    obtain ⟨lower, upper⟩ := both
    have outside : ¬ call.mapping.Contains call.mapping.range.end_ :=
      fun inside => absurd inside.2 (UInt64.lt_irrefl _)
    have found := (entryAt_eq_some_iff sorted).mpr
      ⟨member, UInt64.le_of_lt lower, upper⟩
    have untouched : ¬ Truncates call.mapping whole.1 :=
      fun truncated => absurd upper
        (UInt64.not_lt.mpr (UInt64.le_of_lt truncated.2.2))
    obtain ⟨x, foundAfter, piece⟩ :=
      effect.entryAt_whole sorted outside found untouched
    obtain ⟨stored, contains⟩ :=
      (entryAt_eq_some_iff effect.sorted).mp foundAfter
    have sameOffset := keeps _ whole x outside found foundAfter
    rw [Mapping.offsetOf_inj piece.pgoff,
      effect.start_of_cut piece stored contains] at sameOffset
    rw [sameOffset] at lower
    exact UInt64.lt_irrefl _ lower
  · intro uncut addr before after outside found foundAfter
    obtain ⟨whole, wholeFound, piece, _⟩ :=
      effect.entryAt_piece sorted outside foundAfter
    rw [found, Option.some.injEq] at wholeFound
    subst wholeFound
    rw [Mapping.offsetOf_inj piece.pgoff]
    rcases piece.start with same | ⟨cut, atEnd⟩
    · exact same
    · -- A piece behind the new mapping belongs to a mapping that was cut.
      have member := ((entryAt_eq_some_iff sorted).mp found).1
      obtain ⟨_, lower, upper⟩ :=
        (entryAt_eq_some_iff effect.sorted).mp foundAfter
      have behind : call.mapping.range.end_ < before.1.range.end_ := by
        rw [← atEnd]
        apply UInt64.lt_of_le_of_lt lower
        exact UInt64.lt_of_lt_of_le upper piece.within.2
      exact absurd ⟨cut, behind⟩ (uncut before member)

/-- Where every address had its own offset, it still has it exactly when the
call keeps the offsets. -/
theorem ownOffsets_iff
    (effect : Emplaced call.mapping call.resolver map result)
    (sorted : Sorted map) {calls : List (EmplaceCall τ)}
    (own : OwnOffsets calls map) :
    OwnOffsets (calls ++ [call]) result ↔
      KeepsOffsets call.mapping map result := by
  constructor
  · intro ownAfter addr before after outside found foundAfter
    obtain ⟨first, firstLast, _, firstOffset⟩ := own addr before found
    obtain ⟨second, secondLast, _, secondOffset⟩ := ownAfter addr after foundAfter
    rw [lastContaining_concat, if_neg outside, firstLast,
      Option.some.injEq] at secondLast
    subst secondLast
    exact secondOffset.trans firstOffset.symm
  · intro keeps addr found foundAfter
    rw [lastContaining_concat]
    by_cases inside : call.mapping.Contains addr
    · rw [effect.entryAt_new inside, Option.some.injEq] at foundAfter
      subst foundAfter
      exact ⟨call, if_pos inside, rfl, rfl⟩
    · obtain ⟨whole, wholeFound, piece, _⟩ :=
        effect.entryAt_piece sorted inside foundAfter
      obtain ⟨last, isLast, sameResolver, sameOffset⟩ := own addr whole wholeFound
      refine ⟨last, by rw [if_neg inside, isLast],
        piece.content.trans sameResolver, ?_⟩
      exact (keeps addr whole found inside wholeFound foundAfter).trans sameOffset

end Emplaced

/-- In every state that calls lead to, one more call keeps the offsets of the
addresses that still resolve to their mapping exactly when it cuts no stored
mapping behind its start; and along a sequence of calls every address is
resolved at its own offset exactly when no call of it does. -/
theorem offsets_iff (calls : List (EmplaceCall τ)) :
    (∀ call, ∃ map result, run perform [] calls = .ok map ∧
      perform map call = .ok result ∧
        (KeepsOffsets call.mapping map result ↔
          ∀ x ∈ map, ¬ CutsStart call.mapping x.1)) ∧
    (Always perform [] OwnOffsets calls ↔
      EveryStep perform []
        (fun map call => ∀ x ∈ map, ¬ CutsStart call.mapping x.1) calls) := by
  constructor
  · intro call
    obtain ⟨map, reached, sorted⟩ := run_sorted calls
    obtain ⟨result, performed, effect⟩ := perform_spec sorted call
    exact ⟨map, result, reached, performed, effect.keepsOffsets_iff sorted⟩
  · refine always_iff (fun earlier map => Sorted map ∧ OwnOffsets earlier map)
      (fun _ _ holds => holds.2) ?_ ?_ ⟨List.Pairwise.nil, nofun⟩
      (.of_forall (fun _ _ => trivial) [] calls)
    · intro earlier map call both _ uncut
      obtain ⟨sorted, own⟩ := both
      obtain ⟨result, performed, effect⟩ := perform_spec sorted call
      refine ⟨result, performed, effect.sorted, ?_⟩
      rw [effect.ownOffsets_iff sorted own, effect.keepsOffsets_iff sorted]
      exact uncut
    · intro earlier map call next both _ performed ownAfter
      obtain ⟨sorted, own⟩ := both
      obtain ⟨result, sameResult, effect⟩ := perform_spec sorted call
      rw [performed, Except.ok.injEq] at sameResult
      subst sameResult
      rw [← effect.keepsOffsets_iff sorted, ← effect.ownOffsets_iff sorted own]
      exact ownAfter

/-- A library of three pages, of which the second is mapped again. -/
def remappedPage : List (EmplaceCall Nat) :=
  [⟨⟨⟨0x1000, 0x4000, by decide⟩, 0⟩, by decide, 1⟩,
    ⟨⟨⟨0x2000, 0x3000, by decide⟩, 0⟩, by decide, 2⟩]

/-- An address on the third page is resolved at an offset on the first one. -/
theorem third_page_misplaced :
    ∃ map found, run perform [] remappedPage = .ok map ∧
      entryAt 0x3800 map = some found ∧ found.2 = 1 ∧
      found.1.offsetOf 0x3800 = 0x800 ∧ ¬ OwnOffsets remappedPage map := by
  refine ⟨_, _, rfl, rfl, rfl, rfl, fun own => ?_⟩
  obtain ⟨call, last, _, sameOffset⟩ := own 0x3800 _ rfl
  cases last
  exact absurd sameOffset (by decide)

end MemoryMap

end Lo2s
