import CrochetShorthand.Proofs.Offsets
import CrochetShorthand.Proofs.Staging

/-!
# Offsets in signed words

The offset of a line and the addresses of its steps are kept in signed words of 64 bits.  The
definitions that work stitches take them as integers.  `workWords?` works stitches at an offset
that is a word: every sum is made from a word and has to be a word again, or there is no result.
A result is always the one for integers (`works_of_workWords?`).

A stitch moves the offset by one at most, and its addresses are no further away than that.  So
after a number of stitches the offset and the addresses are no further from zero than that number,
and up to `2 ^ 63 - 1` stitches all sums are words.  More are not safe: to go back `2 ^ 63` times
leaves the words.

The pieces of a line are worked with one offset, and the same bound holds for all their stitches
together (`workPiecesWord?_eq`).
-/

namespace CrochetShorthand

/-- The word for an integer, if there is one. -/
def word? (value : Int) : Option Int64 :=
  if Int64.minValue.toInt ≤ value ∧ value ≤ Int64.maxValue.toInt then some (Int64.ofInt value)
  else none

theorem toInt_ofInt_of_range {value : Int} (hleast : Int64.minValue.toInt ≤ value)
    (hgreatest : value ≤ Int64.maxValue.toInt) : (Int64.ofInt value).toInt = value := by
  rw [Int64.toInt_minValue] at hleast
  rw [Int64.toInt_maxValue] at hgreatest
  exact Int64.toInt_ofInt_of_le hleast (by omega)

theorem word?_eq_some_iff (value : Int) (word : Int64) :
    word? value = some word ↔ word.toInt = value := by
  unfold word?
  split
  · rename_i hrange
    rw [Option.some.injEq, ← Int64.toInt_inj, toInt_ofInt_of_range hrange.1 hrange.2, eq_comm]
  · rename_i hrange
    constructor
    · intro h
      contradiction
    · rintro rfl
      exact absurd ⟨word.minValue_le_toInt, word.toInt_le⟩ hrange

/-- The words reach as far below zero as above it, and one further. -/
theorem exists_word?_eq_some {value : Int} (h : value.natAbs ≤ Int64.maxValue.toInt) :
    ∃ word, word? value = some word ∧ word.toInt = value := by
  have hleast := Int64.toInt_minValue
  have hgreatest := Int64.toInt_maxValue
  have hexact : (Int64.ofInt value).toInt = value := toInt_ofInt_of_range (by omega) (by omega)
  exact ⟨_, (word?_eq_some_iff _ _).2 hexact, hexact⟩

/-! ## One stitch -/

namespace Stitch

/-- The offset after a stitch, in words. -/
def moveWord? (offset : Int64) : Stitch → Option Int64
  | .chain => some offset
  | .singleCrochet => some offset
  | .increase => word? (offset.toInt + 1)
  | .increaseDecrease => word? (offset.toInt + 1)
  | .decrease => word? (offset.toInt - 1)
  | .skip => word? (offset.toInt - 1)
  | .back => word? (offset.toInt + 1)

/-- The steps of a stitch, with addresses in words. -/
def wordSteps? (offset : Int64) : Stitch → Option (List Step)
  | .chain => some [.chain]
  | .singleCrochet => some [.sc offset.toInt]
  | .increase => do
      let next ← word? (offset.toInt + 1)
      some [.sc offset.toInt, .sc next.toInt]
  | .increaseDecrease => do
      let second ← word? (offset.toInt + 1)
      let next ← word? (offset.toInt + 1)
      some [.sc offset.toInt, .scTwo offset.toInt second.toInt, .sc next.toInt]
  | .decrease => do
      let second ← word? (offset.toInt - 1)
      some [.scTwo offset.toInt second.toInt]
  | .skip => some []
  | .back => some []

/-- The steps of a stitch and the offset after it, unless a sum leaves the words. -/
def workWord? (offset : Int64) (stitch : Stitch) : Option (List Step × Int64) := do
  let after ← stitch.moveWord? offset
  let steps ← stitch.wordSteps? offset
  some (steps, after)

theorem moveWord?_eq_some_iff (stitch : Stitch) (offset after : Int64) :
    stitch.moveWord? offset = some after ↔ after.toInt = offset.toInt + stitch.drift := by
  cases stitch with
  | chain | singleCrochet => simp [moveWord?, drift, Int64.toInt_inj, eq_comm]
  | increase | increaseDecrease | back => rw [moveWord?, word?_eq_some_iff, drift]
  | decrease | skip => rw [moveWord?, word?_eq_some_iff, drift, Int.sub_eq_add_neg]

/-- Where the offset after a stitch is a word, all its addresses are. -/
theorem wordSteps?_of_moveWord? {stitch : Stitch} {offset after : Int64}
    (h : stitch.moveWord? offset = some after) :
    stitch.wordSteps? offset = some (stitch.steps offset.toInt) := by
  cases stitch with
  | increase | increaseDecrease | decrease =>
      have hafter := (word?_eq_some_iff _ _).1 h
      rw [wordSteps?, (word?_eq_some_iff _ _).2 hafter]
      simp [steps, hafter]
  | chain | singleCrochet | skip | back => rfl

theorem workWord?_eq_some_iff (stitch : Stitch) (offset after : Int64) (made : List Step) :
    stitch.workWord? offset = some (made, after) ↔
      made = stitch.steps offset.toInt ∧ after.toInt = offset.toInt + stitch.drift := by
  rw [← moveWord?_eq_some_iff, workWord?]
  cases hmove : stitch.moveWord? offset with
  | none => simp
  | some reached =>
      rw [Option.bind_eq_bind, Option.bind_some, wordSteps?_of_moveWord? hmove]
      simp [eq_comm]

/-- A stitch moves the offset by one at most. -/
theorem natAbs_drift_le (stitch : Stitch) : stitch.drift.natAbs ≤ 1 := by
  cases stitch <;> decide

end Stitch

/-! ## Addresses -/

/-- The addresses of a step. -/
def Step.addresses : Step → List Int
  | .chain => []
  | .sc ago => [ago]
  | .scTwo first second => [first, second]

/-- No address of a step is further from zero than the bound. -/
def Step.Within (bound : Nat) (step : Step) : Prop :=
  ∀ address ∈ step.addresses, address.natAbs ≤ bound

theorem Stitch.steps_within (stitch : Stitch) (offset : Int) :
    ∀ step ∈ stitch.steps offset, step.Within (offset.natAbs + 1) := by
  cases stitch <;> simp [Stitch.steps, Step.Within, Step.addresses] <;> omega

theorem Works.steps_within {offset reached : Int} {stitches : List Stitch} {steps : List Step}
    (h : Works offset stitches steps reached) :
    ∀ step ∈ steps, step.Within (offset.natAbs + stitches.length) := by
  obtain ⟨rfl, -⟩ := h
  induction stitches generalizing offset with
  | nil => simp [workFrom, Working.steps]
  | cons stitch stitches ih =>
      have hdrift := stitch.natAbs_drift_le
      have hrest := works_workFrom (offset + stitch.drift) stitches
      rw [hrest.cons.steps_eq]
      intro step hstep address haddress
      rw [List.length_cons]
      rcases List.mem_append.1 hstep with hearly | hlate
      · have hle := stitch.steps_within offset step hearly address haddress
        omega
      · have hle := ih step hlate address haddress
        omega

/-! ## Stitches in order -/

/-- The steps of stitches that are worked at a word, and the word that they reach, unless a sum
leaves the words. -/
def workWords? (offset : Int64) : List Stitch → Option (List Step × Int64)
  | [] => some ([], offset)
  | stitch :: rest => do
      let (early, between) ← stitch.workWord? offset
      let (late, reached) ← workWords? between rest
      some (early ++ late, reached)

/-- What is worked in words is what is worked in integers. -/
theorem works_of_workWords? {offset reached : Int64} {stitches : List Stitch} {steps : List Step}
    (h : workWords? offset stitches = some (steps, reached)) :
    Works offset.toInt stitches steps reached.toInt := by
  induction stitches generalizing offset steps with
  | nil =>
      obtain ⟨rfl, rfl⟩ := Prod.mk.inj (Option.some.inj h)
      exact works_nil _
  | cons stitch stitches ih =>
      simp only [workWords?, Option.bind_eq_bind, Option.bind_eq_some_iff] at h
      obtain ⟨⟨early, between⟩, hfirst, ⟨late, last⟩, hrest, heq⟩ := h
      obtain ⟨rfl, rfl⟩ := Prod.mk.inj (Option.some.inj heq)
      obtain ⟨rfl, hbetween⟩ := (stitch.workWord?_eq_some_iff _ _ _).1 hfirst
      have hworks := ih hrest
      rw [hbetween] at hworks
      exact hworks.cons

/-- Each stitch takes the offset one further at most, so all sums are words while there are no more
stitches than words on either side. -/
theorem exists_workWords?_eq_some {offset : Int64} {stitches : List Stitch}
    (h : (offset.toInt.natAbs + stitches.length : Nat) ≤ Int64.maxValue.toInt) :
    ∃ steps reached, workWords? offset stitches = some (steps, reached) := by
  induction stitches generalizing offset with
  | nil => exact ⟨[], offset, rfl⟩
  | cons stitch stitches ih =>
      rw [List.length_cons] at h
      have hdrift := stitch.natAbs_drift_le
      have hmoved : (offset.toInt + stitch.drift).natAbs ≤ Int64.maxValue.toInt := by omega
      obtain ⟨between, -, hbetween⟩ := exists_word?_eq_some hmoved
      have hfirst := (stitch.workWord?_eq_some_iff offset between _).2 ⟨rfl, hbetween⟩
      obtain ⟨late, reached, hrest⟩ := @ih between (by omega)
      exact ⟨stitch.steps offset.toInt ++ late, reached, by simp [workWords?, hfirst, hrest]⟩

/-- Too many stitches back leave the words. -/
theorem workWords?_backs {count : Nat} (h : Int64.maxValue.toInt < count) :
    workWords? 0 (List.replicate count .back) = none := by
  cases hwork : workWords? 0 (List.replicate count .back) with
  | none => rfl
  | some worked =>
      have hreached := (works_of_workWords? hwork).offset_eq
      rw [(works_backs _ count).offset_eq, Int64.toInt_zero] at hreached
      have hle := worked.2.toInt_le
      omega

theorem natAbs_totalDrift_le (stitches : List Stitch) :
    (totalDrift stitches).natAbs ≤ stitches.length := by
  induction stitches with
  | nil => exact Nat.le_refl 0
  | cons stitch stitches ih =>
      have hdrift := stitch.natAbs_drift_le
      rw [totalDrift_cons, List.length_cons]
      omega

/-! ## Lines -/

namespace Progress

/-- Work one more stitch of a line with the offset in a word, unless a sum leaves the words. -/
def workWord? (progress : Progress) (stitch : Stitch) : Option Progress := do
  let offset ← word? progress.offset
  let (steps, after) ← stitch.workWord? offset
  let shown := steps.foldl feed progress
  some ⟨after.toInt, shown.held, shown.latest, shown.stepCount⟩

/-- Work the pieces in order, up to the first fault, with one word for the offset of all. -/
def workPiecesWord? (limit : Nat) : List Text → Progress → Option (Progress × Option Fault)
  | [], progress => some (progress, none)
  | piece :: rest, progress =>
      match Command.readPiece limit piece with
      | .error fault => some (progress, some fault)
      | .ok command =>
          match (Unfolding.ofCommand command).foldl
              (fun reached stitch => reached.bind fun progress => progress.workWord? stitch)
              (some progress) with
          | (none, _) => none
          | (some reached, some fault) => some (reached, some fault)
          | (some reached, none) => workPiecesWord? limit rest reached

/-- Work a line, up to the first fault, with a word for the offset. -/
def workLineWord? (limit : Nat) (line : Text) (progress : Progress) :
    Option (Progress × Option Fault) :=
  workPiecesWord? limit (Command.spokenPieces line) progress

theorem offset_work (progress : Progress) (stitch : Stitch) :
    (progress.work stitch).offset = progress.offset + stitch.drift := by
  rw [work, move, (foldl_feed _ _).1]

theorem offset_foldl_work (progress : Progress) (stitches : List Stitch) :
    (stitches.foldl work progress).offset = progress.offset + totalDrift stitches := by
  induction stitches generalizing progress with
  | nil => simp [totalDrift]
  | cons stitch stitches ih =>
      rw [List.foldl_cons, ih, offset_work, totalDrift_cons]
      omega

theorem workWord?_eq {progress : Progress} (stitch : Stitch)
    (h : (progress.offset.natAbs + 1 : Nat) ≤ Int64.maxValue.toInt) :
    progress.workWord? stitch = some (progress.work stitch) := by
  have hdrift := stitch.natAbs_drift_le
  have hbefore : progress.offset.natAbs ≤ Int64.maxValue.toInt := by omega
  have hmoved : (progress.offset + stitch.drift).natAbs ≤ Int64.maxValue.toInt := by omega
  obtain ⟨offset, hword, hoffset⟩ := exists_word?_eq_some hbefore
  obtain ⟨after, -, hafter⟩ := exists_word?_eq_some hmoved
  rw [← hoffset] at hafter
  have hwork := (stitch.workWord?_eq_some_iff offset after _).2 ⟨rfl, hafter⟩
  rw [hoffset] at hafter hwork
  simp only [workWord?, hword, hwork, Option.bind_eq_bind, Option.bind_some]
  rw [hafter, work, move, (foldl_feed _ _).1]

theorem foldl_workWord?_eq {progress : Progress} {stitches : List Stitch}
    (h : (progress.offset.natAbs + stitches.length : Nat) ≤ Int64.maxValue.toInt) :
    stitches.foldl (fun reached stitch => reached.bind fun progress => progress.workWord? stitch)
        (some progress) = some (stitches.foldl work progress) := by
  induction stitches generalizing progress with
  | nil => rfl
  | cons stitch stitches ih =>
      rw [List.length_cons] at h
      have hdrift := stitch.natAbs_drift_le
      have hoffset := progress.offset_work stitch
      rw [List.foldl_cons, List.foldl_cons, Option.bind_some, workWord?_eq stitch (by omega)]
      exact ih (by omega)

/-- The offset goes on from piece to piece, and so does the bound. -/
theorem workPiecesWord?_eq {limit : Nat} {pieces : List Text} {progress : Progress}
    (h : (progress.offset.natAbs + (Meaning.ofPieces limit pieces).stitches.length : Nat) ≤
      Int64.maxValue.toInt) :
    workPiecesWord? limit pieces progress = some (workPieces limit pieces progress) := by
  induction pieces generalizing progress with
  | nil => rfl
  | cons piece rest ih =>
      rw [Meaning.ofPieces, Meaning.ofPiece] at h
      rw [workPiecesWord?, workPieces]
      cases hread : Command.readPiece limit piece with
      | error fault => rfl
      | ok command =>
          rw [hread] at h
          dsimp only at h ⊢
          rw [Unfolding.ofCommand, Unfolding.foldl_ofCommands, Unfolding.foldl_ofCommands,
            Meaning.ofCommands_singleton]
          rw [Meaning.andThen] at h
          cases hfault : (Meaning.ofCommand command).fault with
          | some fault =>
              rw [hfault] at h
              rw [foldl_workWord?_eq h]
          | none =>
              rw [hfault] at h
              simp only [List.length_append] at h
              have hmoved := progress.offset_foldl_work (Meaning.ofCommand command).stitches
              have hdrift := natAbs_totalDrift_le (Meaning.ofCommand command).stitches
              rw [foldl_workWord?_eq (by omega)]
              exact ih (by omega)

end Progress

open Command (spokenPieces)

/-- Stitches that are no more than the greatest word can be worked in words from the start of a
line: no sum leaves the words, the steps are those for integers, their addresses are no further
from zero than there are stitches, and the last offset is the drift of the stitches.  So can the
pieces of every line whose stitches up to the first fault are no more than that, and what is shown
of the line is the same.  No greater number of stitches is safe. -/
theorem offsets_fit_words :
    (∀ stitches : List Stitch, stitches.length ≤ Int64.maxValue.toInt →
      ∃ reached, workWords? 0 stitches = some (workAll stitches, reached) ∧
        reached.toInt = totalDrift stitches ∧
        ∀ step ∈ workAll stitches, step.Within stitches.length) ∧
    (∀ limit line stitches, (Meaning.ofPieces limit (spokenPieces line)).stitches = stitches →
      stitches.length ≤ Int64.maxValue.toInt →
        Progress.start.workLineWord? limit line = some (Progress.start.workLine limit line) ∧
        (Progress.start.workLine limit line).1.Shows (workFrom 0 stitches) ∧
        (Progress.start.workLine limit line).1.offset = totalDrift stitches ∧
        ∀ step ∈ workAll stitches, step.Within stitches.length) ∧
    ∀ length : Nat,
      (∀ stitches, stitches.length ≤ length → ∃ worked, workWords? 0 stitches = some worked) ↔
        length ≤ Int64.maxValue.toInt := by
  have hwithin : ∀ stitches, ∀ step ∈ workAll stitches, step.Within stitches.length := by
    intro stitches
    have hsteps := (works_workFrom 0 stitches).steps_within
    rwa [Int.natAbs_zero, Nat.zero_add] at hsteps
  have hstart : ∀ length : Nat, length ≤ Int64.maxValue.toInt →
      ((0 : Int64).toInt.natAbs + length : Nat) ≤ Int64.maxValue.toInt := by
    intro length h
    rwa [Int64.toInt_zero, Int.natAbs_zero, Nat.zero_add]
  refine ⟨?_, ?_, ?_⟩
  · intro stitches h
    obtain ⟨steps, reached, hwork⟩ := exists_workWords?_eq_some (hstart _ h)
    obtain ⟨rfl, hoffset⟩ := works_of_workWords? hwork
    rw [Int64.toInt_zero, (works_workFrom 0 stitches).offset_eq, Int.zero_add] at hoffset
    exact ⟨reached, hwork, hoffset.symm, hwithin stitches⟩
  · rintro limit line stitches rfl h
    have hline : Progress.start.workLine limit line =
        ((Meaning.ofPieces limit (spokenPieces line)).stitches.foldl Progress.work Progress.start,
          (Meaning.ofPieces limit (spokenPieces line)).fault) :=
      Progress.workPieces_eq limit (spokenPieces line) Progress.start
    refine ⟨Progress.workPiecesWord?_eq (hstart _ h), ?_, ?_, hwithin _⟩
    · rw [hline]
      exact Progress.shows_workFrom _
    · rw [hline, Progress.offset_foldl_work]
      exact Int.zero_add _
  · intro length
    constructor
    · intro h
      by_contra hlong
      obtain ⟨worked, hwork⟩ := h (List.replicate length .back) (by simp)
      rw [workWords?_backs (by omega)] at hwork
      contradiction
    · intro h stitches hle
      obtain ⟨steps, reached, hwork⟩ :=
        exists_workWords?_eq_some (hstart stitches.length (by omega))
      exact ⟨_, hwork⟩

/-- As many decreases as the greatest word reach its negative.  A line that fails is worked up to
the piece that fails. -/
theorem offsets_fit_words_of_most_decreases :
    ((List.replicate 9223372036854775807 Stitch.decrease).length ≤ Int64.maxValue.toInt ∧
      ∃ reached,
        workWords? 0 (List.replicate 9223372036854775807 .decrease) =
          some (workAll (List.replicate 9223372036854775807 .decrease), reached) ∧
        reached.toInt = -9223372036854775807) ∧
    ((Meaning.ofPieces 32 (spokenPieces "[sc incdec]2 dec foo sk".toList)).stitches =
        [.singleCrochet, .increaseDecrease, .singleCrochet, .increaseDecrease, .decrease] ∧
      Progress.start.workLineWord? 32 "[sc incdec]2 dec foo sk".toList =
        some (Progress.start.workLine 32 "[sc incdec]2 dec foo sk".toList) ∧
      (Progress.start.workLine 32 "[sc incdec]2 dec foo sk".toList).1.offset = 1) := by
  obtain ⟨hstitches, hlines, -⟩ := offsets_fit_words
  have hlength : (List.replicate 9223372036854775807 Stitch.decrease).length ≤
      Int64.maxValue.toInt := by
    rw [List.length_replicate]
    decide
  have hmeaning : (Meaning.ofPieces 32 (spokenPieces "[sc incdec]2 dec foo sk".toList)).stitches =
      [.singleCrochet, .increaseDecrease, .singleCrochet, .increaseDecrease, .decrease] := by
    decide +kernel
  obtain ⟨reached, hwork, hreached, -⟩ := hstitches _ hlength
  have hdrift : totalDrift (List.replicate 9223372036854775807 .decrease) =
      -9223372036854775807 := by
    have hmoved := (works_replicate 0 .decrease 9223372036854775807).reached_eq
    rw [Int.zero_add, Int.zero_add] at hmoved
    exact hmoved.symm
  obtain ⟨hline, -, hoffset, -⟩ := hlines 32 _ _ hmeaning (by decide)
  exact ⟨⟨hlength, reached, hwork, hreached.trans hdrift⟩, hmeaning, hline,
    hoffset.trans (by decide)⟩

end CrochetShorthand
