import Lo2s.MemoryMapEmplace

/-!
# The last mapping wins

An address should resolve to the last emplaced mapping that contains it.  A
mapping that starts inside an older one and ends behind it takes away more than
its own range: the part of the older mapping in front of it is lost as well.
Apart from that the last mapping wins.
-/

namespace Lo2s

open Foundation EmplaceCall

namespace MemoryMap

variable {τ : Type}

/-- No address is in two of the stored ranges. -/
def Disjoint (map : MemoryMap τ) : Prop :=
  map.Pairwise fun left right =>
    ∀ addr, ¬ (left.1.Contains addr ∧ right.1.Contains addr)

/-- Each address resolves to the last mapping that contains it, and to nothing
if there is none. -/
def LastWins (calls : List (EmplaceCall τ)) (map : MemoryMap τ) : Prop :=
  ∀ addr, addr < Address.max →
    (entryAt addr map).map Prod.snd =
      (lastContaining calls addr).map EmplaceCall.resolver

theorem Sorted.disjoint {map : MemoryMap τ} (sorted : Sorted map) :
    Disjoint map := by
  refine List.Pairwise.imp ?_ sorted
  intro left right precedes addr both
  obtain ⟨inLeft, inRight⟩ := both
  rw [Mapping.lt_iff] at precedes
  have beyond := UInt64.lt_of_lt_of_le inLeft.2 precedes
  exact absurd inRight.1 (UInt64.not_le.mpr beyond)

/-- One call keeps the last mapping winning exactly when it truncates no stored
mapping. -/
theorem LastWins.step_iff {calls : List (EmplaceCall τ)} {map : MemoryMap τ}
    (sorted : Sorted map) (wins : LastWins calls map) {call : EmplaceCall τ}
    {result : MemoryMap τ}
    (effect : Emplaced call.mapping call.resolver map result) :
    LastWins (calls ++ [call]) result ↔
      ∀ x ∈ map, ¬ Truncates call.mapping x.1 := by
  constructor
  · intro winsAfter x member truncated
    have ⟨lower, upper, _⟩ := truncated
    -- The start of the truncated mapping is the address that gets lost.
    have contains : x.1.Contains x.1.range.start :=
      ⟨UInt64.le_refl _, UInt64.lt_trans lower upper⟩
    have outside : ¬ call.mapping.Contains x.1.range.start :=
      fun inside => absurd lower (UInt64.not_lt.mpr inside.1)
    have found := (entryAt_eq_some_iff sorted).mpr ⟨member, contains⟩
    have notMax : x.1.range.start < Address.max := by
      apply UInt64.lt_of_lt_of_le lower
      exact Address.le_max _
    have before := wins _ notMax
    have after := winsAfter _ notMax
    rw [lastContaining_concat, if_neg outside, ← before, found] at after
    obtain ⟨y, foundAfter, _⟩ := Option.map_eq_some_iff.mp after
    obtain ⟨whole, wholeFound, _, untouched⟩ :=
      effect.entryAt_piece sorted outside foundAfter
    rw [found, Option.some.injEq] at wholeFound
    subst wholeFound
    exact untouched truncated
  · intro untouched addr notMax
    rw [lastContaining_concat]
    by_cases inside : call.mapping.Contains addr
    · rw [if_pos inside, effect.entryAt_new inside]
      rfl
    · rw [if_neg inside, ← wins addr notMax]
      cases before : entryAt addr map with
      | none =>
          cases after : entryAt addr result with
          | none => rfl
          | some y =>
              obtain ⟨whole, wholeFound, _⟩ :=
                effect.entryAt_piece sorted inside after
              rw [before] at wholeFound
              cases wholeFound
      | some x =>
          have member := ((entryAt_eq_some_iff sorted).mp before).1
          obtain ⟨y, found, piece⟩ :=
            effect.entryAt_whole sorted inside before (untouched x member)
          rw [found, Option.map_some, Option.map_some, piece.content]

/-- On an initially empty map the last mapping wins, and the stored ranges are
disjoint, after every call of a sequence exactly when no call of it truncates a
mapping stored at that time. -/
theorem lastWins_iff (calls : List (EmplaceCall τ)) :
    Always perform [] (fun earlier map => Disjoint map ∧ LastWins earlier map)
      calls ↔
    EveryStep perform []
      (fun map call => ∀ x ∈ map, ¬ Truncates call.mapping x.1) calls := by
  refine always_iff (fun earlier map => Sorted map ∧ LastWins earlier map)
    ?_ ?_ ?_
    ⟨List.Pairwise.nil, fun _ _ => rfl⟩ (.of_forall (fun _ _ => trivial) [] calls)
  · intro earlier map both
    obtain ⟨sorted, wins⟩ := both
    exact ⟨sorted.disjoint, wins⟩
  · intro earlier map call both _ untouched
    obtain ⟨sorted, wins⟩ := both
    obtain ⟨result, performed, effect⟩ := perform_spec sorted call
    exact ⟨result, performed, effect.sorted,
      (wins.step_iff sorted effect).mpr untouched⟩
  · intro earlier map call next before _ performed after
    obtain ⟨sorted, wins⟩ := before
    obtain ⟨_, winsAfter⟩ := after
    obtain ⟨result, sameResult, effect⟩ := perform_spec sorted call
    rw [performed, Except.ok.injEq] at sameResult
    subst sameResult
    exact (wins.step_iff sorted effect).mp winsAfter

/-- A mapping of two pages, and one of two pages from its second page on. -/
def twoOverlapping : List (EmplaceCall Nat) :=
  [⟨⟨⟨0x1000, 0x3000, by decide⟩, 0⟩, by decide, 1⟩,
    ⟨⟨⟨0x2000, 0x4000, by decide⟩, 0⟩, by decide, 2⟩]

/-- The first page is no longer found. -/
theorem first_page_lost :
    ∃ map, run perform [] twoOverlapping = .ok map ∧
      ¬ LastWins twoOverlapping map := by
  refine ⟨_, rfl, fun wins => ?_⟩
  exact absurd (wins 0x1000 (by decide)) (by decide)

end MemoryMap

end Lo2s
