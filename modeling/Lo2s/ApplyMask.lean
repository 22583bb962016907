import Lo2s.ParseBitmask

/-!
# Scattering parameters into the config words

`apply_mask` puts the low bits of a value at the positions of a mask, lowest
first.  `event_attr_update` does so for one parameter of an event, whose format
names the word and the mask, and leaves all other bits as they are.  Parameters
with disjoint masks do not disturb each other, but the bits that a word has
before are never cleared.
-/

namespace Lo2s

open Foundation Scan

/-- One round of the loop of `apply_mask`: the result and `value_bit`. -/
def applyMaskStep (value mask : UInt64) (s : UInt64 × Nat) (maskBit : Nat) :
    UInt64 × Nat :=
  if mask &&& (1 <<< UInt64.ofNat maskBit) ≠ 0 then
    (s.1 ||| (((value >>> UInt64.ofNat s.2) &&& 1) <<< UInt64.ofNat maskBit),
      s.2 + 1)
  else s

def applyMask (value mask : UInt64) : UInt64 :=
  ((List.range 64).foldl (applyMaskStep value mask) (0, 0)).1

/-- The positions of a mask below a bound, in ascending order. -/
def maskPositions (mask : UInt64) (bound : Nat) : List Nat :=
  (List.range bound).filter (bitAt mask)

/-- The bits at the positions of a mask, in ascending order. -/
def extractBits (word mask : UInt64) : List Bool :=
  (maskPositions mask 64).map (bitAt word)

def popcount (mask : UInt64) : Nat := (maskPositions mask 64).length

/-- The low bits of a word, lowest first. -/
def lowBits (word : UInt64) (count : Nat) : List Bool :=
  (List.range count).map (bitAt word)

theorem maskPositions_succ (mask : UInt64) (bound : Nat) :
    maskPositions mask (bound + 1) = maskPositions mask bound ++
      if bitAt mask bound then [bound] else [] := by
  rw [maskPositions, List.range_succ, List.filter_append]
  cases set : bitAt mask bound with
  | false => simp [maskPositions, set]
  | true => simp [maskPositions, set]

theorem maskPositions_length_le (mask : UInt64) (bound : Nat) :
    (maskPositions mask bound).length ≤ bound :=
  (List.length_filter_le _ _).trans_eq List.length_range

/-- The loop after some rounds: the value index is the number of mask bits that
have been passed, and each of them has got the bit of the value at its rank. -/
structure Scattered (value mask : UInt64) (round : Nat) (s : UInt64 × Nat) :
    Prop where
  valueBit : s.2 = (maskPositions mask round).length
  bits : ∀ position, bitAt s.1 position =
    (decide (position < round) && (bitAt mask position &&
      bitAt value (maskPositions mask position).length))

theorem Scattered.step {value mask : UInt64} {round : Nat} {s : UInt64 × Nat}
    (scattered : Scattered value mask round s) (inside : round < 64) :
    Scattered value mask (round + 1) (applyMaskStep value mask s round) := by
  have places : s.2 < 64 := by
    rw [scattered.valueBit]
    exact (maskPositions_length_le mask round).trans_lt inside
  by_cases set : bitAt mask round = true
  · have nonzero : mask &&& (1 <<< UInt64.ofNat round) ≠ 0 := by
      rw [ne_eq, and_bit_eq_zero_iff mask inside, set]
      decide
    rw [applyMaskStep, if_pos nonzero]
    refine ⟨?_, fun position => ?_⟩
    · rw [maskPositions_succ, if_pos set, List.length_append,
        scattered.valueBit]
      rfl
    · have low : ∀ other, bitAt ((value >>> UInt64.ofNat s.2) &&& 1) other =
          (decide (other = 0) && bitAt value s.2) := by
        intro other
        rw [bitAt_and, bitAt_shiftRight _ places, bitAt_one, Bool.and_comm]
        by_cases zero : other = 0
        · rw [zero, Nat.add_zero]
        · simp [zero]
      rw [bitAt_or, scattered.bits, bitAt_shiftLeft _ inside, low]
      by_cases here : position = round
      · rw [here, set, Nat.sub_self, scattered.valueBit]
        simp [inside]
      · have added : (decide (position < 64) && decide (round ≤ position) &&
            (decide (position - round = 0) && bitAt value s.2)) = false := by
          simp only [Bool.and_eq_false_iff, decide_eq_false_iff_not]
          omega
        have bounds : position < round + 1 ↔ position < round := by omega
        rw [added, Bool.or_false]
        simp only [bounds]
  · have zero : mask &&& (1 <<< UInt64.ofNat round) = 0 := by
      rw [and_bit_eq_zero_iff mask inside]
      exact Bool.eq_false_iff.mpr set
    rw [applyMaskStep, if_neg (not_not.mpr zero)]
    refine ⟨?_, fun position => ?_⟩
    · rw [maskPositions_succ, if_neg set, List.append_nil, scattered.valueBit]
    · rw [scattered.bits]
      by_cases here : position = round
      · rw [here, Bool.eq_false_iff.mpr set]
        simp
      · have bounds : position < round + 1 ↔ position < round := by omega
        simp only [bounds]

theorem scattered_rounds (value mask : UInt64) {rounds : Nat}
    (inside : rounds ≤ 64) :
    Scattered value mask rounds
      ((List.range rounds).foldl (applyMaskStep value mask) (0, 0)) := by
  induction rounds with
  | zero =>
      refine ⟨rfl, fun position => ?_⟩
      rw [List.range_zero, List.foldl_nil, bitAt_zero]
      simp
  | succ rounds induction =>
      rw [List.range_succ, List.foldl_append]
      exact (induction (by omega)).step (by omega)

theorem bitAt_applyMask (value mask : UInt64) (position : Nat) :
    bitAt (applyMask value mask) position = (bitAt mask position &&
      bitAt value (maskPositions mask position).length) := by
  rw [applyMask, (scattered_rounds value mask (Nat.le_refl 64)).bits]
  by_cases inside : position < 64
  · rw [decide_eq_true inside, Bool.true_and]
  · rw [bitAt_of_le mask (by omega), Bool.false_and, Bool.and_false]

theorem applyMask_inside {value mask : UInt64} {position : Nat}
    (set : bitAt (applyMask value mask) position = true) :
    bitAt mask position = true := by
  rw [bitAt_applyMask, Bool.and_eq_true] at set
  exact set.1

theorem extractBits_of_agree {word value mask : UInt64}
    (agree : ∀ position, bitAt mask position = true →
      bitAt word position = bitAt (applyMask value mask) position) :
    extractBits word mask = lowBits value (popcount mask) := by
  have upTo : ∀ bound, (maskPositions mask bound).map (bitAt word) =
      lowBits value (maskPositions mask bound).length := by
    intro bound
    induction bound with
    | zero => rfl
    | succ bound induction =>
        rw [maskPositions_succ, List.map_append, induction]
        by_cases set : bitAt mask bound = true
        · have here : bitAt word bound =
              bitAt value (maskPositions mask bound).length := by
            rw [agree bound set, bitAt_applyMask, set, Bool.true_and]
          rw [if_pos set, List.map_singleton, here, List.length_append,
            List.length_singleton, lowBits, lowBits, List.range_succ,
            List.map_append]
          rfl
        · rw [if_neg set, List.map_nil, List.append_nil, List.append_nil]
  exact upTo 64

/-- The low bits are read if and only if the word agrees with the masked value
at the positions of the mask. -/
theorem extractBits_eq_iff {word value mask : UInt64} :
    extractBits word mask = lowBits value (popcount mask) ↔
      ∀ position, bitAt mask position = true →
        bitAt word position = bitAt (applyMask value mask) position := by
  constructor
  · intro read position set
    have inside : position < 64 := by
      by_contra beyond
      rw [bitAt_of_le mask (by omega)] at set
      cases set
    have known : position ∈ maskPositions mask 64 :=
      List.mem_filter.mpr ⟨List.mem_range.mpr inside, set⟩
    have masked : extractBits (applyMask value mask) mask =
        lowBits value (popcount mask) := extractBits_of_agree fun _ _ => rfl
    exact List.map_inj_left.mp (read.trans masked.symm) position known
  · exact extractBits_of_agree

/-- `event_attr_update`, where only two targets are known. -/
def eventAttrUpdate (value : UInt64) (format : List Char) (ev : EventAttr) :
    Except EventError EventAttr :=
  match format.dropWhile (· ≠ ':') with
  | [] => .error (.invalid "invalid format description: missing colon")
  | _ :: bits =>
      let targetConfig := format.takeWhile (· ≠ ':')
      match parseBitmask bits with
      | .error thrown => .error thrown
      | .ok mask =>
          let ev :=
            if targetConfig = ['c', 'o', 'n', 'f', 'i', 'g'] then
              { ev with attr.config := ev.attr.config ||| applyMask value mask }
            else ev
          .ok (if targetConfig = ['c', 'o', 'n', 'f', 'i', 'g', '1'] then
              { ev with
                attr.config1 := ev.attr.config1 ||| applyMask value mask }
            else ev)

/-- Updates one after the other, each with its value and format. -/
def eventAttrUpdates : List (UInt64 × List Char) → EventAttr →
    Except EventError EventAttr
  | [], ev => .ok ev
  | update :: updates, ev =>
      match eventAttrUpdate update.1 update.2 ev with
      | .error thrown => .error thrown
      | .ok ev => eventAttrUpdates updates ev

/-- A format with a colon and ranges that all pass. -/
def FormatPasses (format : List Char) : Prop :=
  ∃ colon bits, format.dropWhile (· ≠ ':') = colon :: bits ∧
    ∀ found ∈ bitMatches bits.length bits, found.Passes

/-- A format without a colon, or whose first range that does not pass is
rejected. -/
def FormatCaught (format : List Char) : Prop :=
  format.dropWhile (· ≠ ':') = [] ∨
    ∃ colon bits, format.dropWhile (· ≠ ':') = colon :: bits ∧
      StopsAt BitMatch.Passes BitMatch.Rejected (bitMatches bits.length bits)

theorem eventAttrUpdate_ends (value : UInt64) (format : List Char)
    (ev : EventAttr) :
    Ends (FormatPasses format) (FormatCaught format) EventError.IsInvalid
      (eventAttrUpdate value format ev) := by
  unfold FormatPasses FormatCaught eventAttrUpdate
  cases format.dropWhile (· ≠ ':') with
  | nil =>
      refine ⟨fun passes => ?_,
        iff_of_true (.inl rfl) (EventError.isInvalid_invalid _)⟩
      obtain ⟨colon, bits, split, _⟩ := passes
      cases split
  | cons colon bits =>
      have ends := parseBitmask_ends bits
      simp only
      have passes : (∃ colon' bits', colon :: bits = colon' :: bits' ∧
          ∀ found ∈ bitMatches bits'.length bits', found.Passes) ↔
          ∀ found ∈ bitMatches bits.length bits, found.Passes := by
        constructor
        · intro found
          obtain ⟨_, _, split, all⟩ := found
          cases split
          exact all
        · exact fun all => ⟨colon, bits, rfl, all⟩
      have caught : (colon :: bits = [] ∨ ∃ colon' bits',
          colon :: bits = colon' :: bits' ∧ StopsAt BitMatch.Passes
            BitMatch.Rejected (bitMatches bits'.length bits')) ↔
          StopsAt BitMatch.Passes BitMatch.Rejected
            (bitMatches bits.length bits) := by
        constructor
        · intro either
          rcases either with none | ⟨_, _, split, stops⟩
          · cases none
          · cases split
            exact stops
        · exact fun stops => .inr ⟨colon, bits, rfl, stops⟩
      apply (Ends.congr passes caught).mpr
      cases parsed : parseBitmask bits with
      | error thrown =>
          rw [parsed] at ends
          exact ends
      | ok mask =>
          rw [parsed] at ends
          exact ends

theorem cpus_of_eventAttrUpdate {value : UInt64} {format : List Char}
    {ev result : EventAttr}
    (updated : eventAttrUpdate value format ev = .ok result) :
    result.cpus = ev.cpus := by
  unfold eventAttrUpdate at updated
  split at updated
  · cases updated
  · simp only at updated
    split at updated
    · cases updated
    · cases updated
      split_ifs <;> rfl

/-- The words that formats may name. -/
inductive ConfigWord where
  | config
  | config1
  deriving DecidableEq

namespace ConfigWord

def name : ConfigWord → List Char
  | config => ['c', 'o', 'n', 'f', 'i', 'g']
  | config1 => ['c', 'o', 'n', 'f', 'i', 'g', '1']

def get : ConfigWord → PerfEventAttr → UInt64
  | config, attr => attr.config
  | config1, attr => attr.config1

end ConfigWord

/-- An update whose format names one of the words and a mask. -/
structure TermUpdate where
  value : UInt64
  word : ConfigWord
  bits : List Char
  mask : UInt64
  parsed : parseBitmask bits = .ok mask

namespace TermUpdate

def format (u : TermUpdate) : List Char := u.word.name ++ ':' :: u.bits

/-- What the update adds to a word. -/
def added (u : TermUpdate) (word : ConfigWord) : UInt64 :=
  if u.word = word then applyMask u.value u.mask else 0

theorem added_self (u : TermUpdate) :
    u.added u.word = applyMask u.value u.mask := if_pos rfl

theorem added_inside {u : TermUpdate} {word : ConfigWord} {position : Nat}
    (set : bitAt (u.added word) position = true) :
    u.word = word ∧ bitAt u.mask position = true := by
  rw [added] at set
  split_ifs at set with same
  · exact ⟨same, applyMask_inside set⟩
  · rw [bitAt_zero] at set
    cases set

/-- Two updates that share no bit of a word. -/
def Disjoint (left right : TermUpdate) : Prop :=
  left.word = right.word →
    ∀ position, bitAt left.mask position = true →
      bitAt right.mask position = false

instance : Std.Symm Disjoint where
  symm left right disjoint same position set := by
    by_contra notUnset
    rw [Bool.not_eq_false] at notUnset
    rw [disjoint same.symm position notUnset] at set
    cases set

end TermUpdate

def withWords (words : PerfEventAttr) (ev : EventAttr) : EventAttr :=
  { ev with
    attr.config := words.config
    attr.config1 := words.config1 }

def SameBesidesWords (left right : EventAttr) : Prop :=
  withWords right.attr left = right

theorem SameBesidesWords.trans {first second third : EventAttr}
    (left : SameBesidesWords first second)
    (right : SameBesidesWords second third) : SameBesidesWords first third :=
  (congrArg (withWords third.attr) left).trans right

theorem eventAttrUpdate_spec (u : TermUpdate) (ev : EventAttr) :
    ∃ result, eventAttrUpdate u.value u.format ev = .ok result ∧
      (∀ word, word.get result.attr = word.get ev.attr ||| u.added word) ∧
      SameBesidesWords result ev := by
  have split : u.format.takeWhile (· ≠ ':') = u.word.name ∧
      u.format.dropWhile (· ≠ ':') = ':' :: u.bits := by
    rw [TermUpdate.format]
    cases u.word with
    | config => exact ⟨rfl, rfl⟩
    | config1 => exact ⟨rfl, rfl⟩
  rw [eventAttrUpdate, split.2]
  simp only [split.1, u.parsed]
  refine ⟨_, rfl, fun word => ?_, ?_⟩
  · rw [TermUpdate.added]
    cases u.word with
    | config =>
        cases word with
        | config => rfl
        | config1 => exact (UInt64.or_zero).symm
    | config1 =>
        cases word with
        | config => exact (UInt64.or_zero).symm
        | config1 => rfl
  · cases u.word with
    | config => rfl
    | config1 => rfl

/-- After a sequence of updates, a word holds what they have added. -/
theorem eventAttrUpdates_spec (updates : List TermUpdate) (ev : EventAttr) :
    ∃ result, eventAttrUpdates (updates.map fun u => (u.value, u.format)) ev =
        .ok result ∧
      (∀ word position, bitAt (word.get result.attr) position =
        (bitAt (word.get ev.attr) position ||
          updates.any fun u => bitAt (u.added word) position)) ∧
      SameBesidesWords result ev := by
  induction updates generalizing ev with
  | nil =>
      exact ⟨ev, rfl, fun word position => (Bool.or_false _).symm, rfl⟩
  | cons u updates induction =>
      obtain ⟨next, updated, words, same⟩ := eventAttrUpdate_spec u ev
      obtain ⟨result, all, later, sameLater⟩ := induction next
      refine ⟨result, ?_, fun word position => ?_, ?_⟩
      · rw [List.map_cons, eventAttrUpdates, updated]
        exact all
      · rw [later, words, bitAt_or, Bool.or_assoc, List.any_cons]
      · exact sameLater.trans same

/-- No position of the update has a bit in the word that the masked value does
not have. -/
def TermUpdate.Unspoilt (u : TermUpdate) (ev : EventAttr) : Prop :=
  ∀ position, bitAt u.mask position = true →
    bitAt (u.word.get ev.attr) position = true →
      bitAt (applyMask u.value u.mask) position = true

/-- Parameters are scattered into the words without loss or interference.  A
masked value stays inside its mask and has the low bits of the value there.
After any sequence of updates with disjoint masks, in any order, a parameter is
read back from its positions exactly if none of them has been set before that
it leaves clear; all other bits of the words are the old ones, and so is the
rest of the event. -/
theorem parameters_scattered :
    (∀ value mask, (∀ position, bitAt (applyMask value mask) position = true →
        bitAt mask position = true) ∧
      extractBits (applyMask value mask) mask =
        lowBits value (popcount mask)) ∧
    ∀ (updates : List TermUpdate) (ev : EventAttr),
      updates.Pairwise TermUpdate.Disjoint →
      ∃ result, eventAttrUpdates (updates.map fun u => (u.value, u.format))
          ev = .ok result ∧
        (∀ u ∈ updates, extractBits (u.word.get result.attr) u.mask =
          lowBits u.value (popcount u.mask) ↔ u.Unspoilt ev) ∧
        (∀ word position, (∀ u ∈ updates, u.word = word →
            bitAt u.mask position = false) →
          bitAt (word.get result.attr) position =
            bitAt (word.get ev.attr) position) ∧
        SameBesidesWords result ev := by
  refine ⟨fun value mask => ⟨fun position => applyMask_inside,
    extractBits_of_agree fun _ _ => rfl⟩, fun updates ev disjoint => ?_⟩
  obtain ⟨result, all, words, same⟩ := eventAttrUpdates_spec updates ev
  refine ⟨result, all, fun u member => ?_, fun word position outside => ?_,
    same⟩
  · have own : ∀ position, bitAt u.mask position = true →
        (updates.any fun other => bitAt (other.added u.word) position) =
          bitAt (applyMask u.value u.mask) position := by
      intro position set
      rw [Bool.eq_iff_iff, List.any_eq_true, ← u.added_self]
      constructor
      · -- Another update of the word has no bit where this one has.
        intro found
        obtain ⟨other, inUpdates, added⟩ := found
        by_cases equal : other = u
        · rw [← equal] at added ⊢
          exact added
        · have apart := disjoint.forall inUpdates member equal
          obtain ⟨sameWord, inside⟩ := TermUpdate.added_inside added
          rw [apart sameWord position inside] at set
          cases set
      · intro added
        exact ⟨u, member, added⟩
    rw [extractBits_eq_iff]
    refine forall_congr' fun position => forall_congr' fun set => ?_
    rw [words, own position set, Bool.or_eq_right_iff_imp]
  · have none : (updates.any fun u => bitAt (u.added word) position) =
        false := by
      rw [List.any_eq_false]
      intro u member added
      obtain ⟨sameWord, inside⟩ := TermUpdate.added_inside added
      rw [outside u member sameWord] at inside
      cases inside
    rw [words, none, Bool.or_false]

/-- Where the words are clear, as the constructor of an event leaves them, every
parameter is read back. -/
theorem TermUpdate.unspoilt_of_clear {u : TermUpdate} {ev : EventAttr}
    (clear : u.word.get ev.attr = 0) : u.Unspoilt ev := by
  intro position _ set
  rw [clear, bitAt_zero] at set
  cases set

/-- `umask=0x41` and `event=0x2e` with the formats of a core PMU. -/
def umaskAndEvent : List TermUpdate :=
  [⟨0x41, .config, ['8', '-', '1', '5'], 0xff00, rfl⟩,
    ⟨0x2e, .config, ['0', '-', '7'], 0xff, rfl⟩]

theorem parameters_scattered_umask :
    (∀ position, bitAt (applyMask 0x41 0xff00) position = true →
        bitAt 0xff00 position = true) ∧
    extractBits (applyMask 0x41 0xff00) 0xff00 = lowBits 0x41 (popcount 0xff00) ∧
    ∃ result, eventAttrUpdates (umaskAndEvent.map fun u => (u.value, u.format))
        (.init "cpu/cache-misses/" ⟨4, 0, 0⟩) = .ok result ∧
      (∀ u ∈ umaskAndEvent, extractBits (u.word.get result.attr) u.mask =
        lowBits u.value (popcount u.mask)) ∧
      (∀ word position, (∀ u ∈ umaskAndEvent, u.word = word →
          bitAt u.mask position = false) →
        bitAt (word.get result.attr) position = false) ∧
      SameBesidesWords result (.init "cpu/cache-misses/" ⟨4, 0, 0⟩) := by
  have disjoint : umaskAndEvent.Pairwise TermUpdate.Disjoint :=
    List.pairwise_pair.mpr fun _ position set => by
      have none : bitAt (0xff00 &&& 0xff) position = false :=
        bitAt_zero position
      rwa [bitAt_and, set, Bool.true_and] at none
  have clear : ∀ word : ConfigWord,
      word.get (EventAttr.init "cpu/cache-misses/" ⟨4, 0, 0⟩).attr = 0 := by
    intro word
    cases word <;> rfl
  obtain ⟨masked, updated⟩ := parameters_scattered
  obtain ⟨result, all, read, others, same⟩ := updated umaskAndEvent
    (.init "cpu/cache-misses/" ⟨4, 0, 0⟩) disjoint
  refine ⟨(masked _ _).1, (masked _ _).2, result, all, fun u member => ?_,
    fun word position outside => ?_, same⟩
  · exact (read u member).mpr (TermUpdate.unspoilt_of_clear (clear u.word))
  · rw [others word position outside, clear, bitAt_zero]

/-- A zero is not read back from a word whose bits have been set before. -/
theorem setWord_not_readBack :
    ∃ result, eventAttrUpdates
        [(0, ['c', 'o', 'n', 'f', 'i', 'g', ':', '0', '-', '7'])]
        (.init "cpu/cache-misses/" ⟨4, 0xff, 0⟩) = .ok result ∧
      parseBitmask ['0', '-', '7'] = .ok 0xff ∧
      extractBits result.attr.config 0xff ≠ lowBits 0 (popcount 0xff) := by
  refine ⟨_, rfl, rfl, ?_⟩
  decide

end Lo2s
