import CrochetShorthand.Proofs.PatternSteps

/-!
# The steps of a group

A group is its body several times over, and each pass starts at the offset to which the one before
has come.  So the steps of a group are the steps of its body in every pass, each pass further back
by the drift of the body.

The drift of a command that unfolds does not need its stitches.  A pattern has a drift of its own,
and the drift of a group is that of its commands as often as it says (`Command.drift`).
-/

namespace CrochetShorthand

open Stitch (back increaseDecrease)

/-! ## Meanings without a fault -/

namespace Meaning

/-- Stitches several times over are a meaning without a fault. -/
theorem times_unfaulted (count : Nat) (stitches : List Stitch) :
    times count ⟨stitches, none⟩ = ⟨(List.replicate count stitches).flatten, none⟩ := by
  induction count with
  | zero => rfl
  | succ count ih =>
      rw [times, ih, List.replicate_succ, List.flatten_cons]
      rfl

theorem andThen_eq_unfaulted_iff (first second : Meaning) (stitches : List Stitch) :
    first.andThen second = ⟨stitches, none⟩ ↔
      ∃ front back, first = ⟨front, none⟩ ∧ second = ⟨back, none⟩ ∧ stitches = front ++ back := by
  obtain ⟨front, fault⟩ := first
  obtain ⟨back, fault'⟩ := second
  cases fault <;> simp [andThen, eq_comm, and_comm]

/-- A repeated meaning has no fault when it is repeated no time or has none itself. -/
theorem times_eq_unfaulted {count : Nat} {meaning : Meaning} {stitches : List Stitch}
    (h : times count meaning = ⟨stitches, none⟩) :
    (count = 0 ∧ stitches = []) ∨
      ∃ pass, meaning = ⟨pass, none⟩ ∧ stitches = (List.replicate count pass).flatten := by
  cases count with
  | zero =>
      left
      exact ⟨rfl, (Meaning.mk.inj h).1.symm⟩
  | succ count =>
      right
      obtain ⟨pass, _, hpass, -, -⟩ := (andThen_eq_unfaulted_iff _ _ _).1 h
      rw [hpass, times_unfaulted] at h
      exact ⟨pass, hpass, (Meaning.mk.inj h).1.symm⟩

end Meaning

/-! ## Drifts -/

/-- The drift of copies is that of each, as often as there are copies. -/
theorem totalDrift_copies (count : Nat) (stitches : List Stitch) :
    totalDrift (List.replicate count stitches).flatten = count * totalDrift stitches := by
  have hcopies := ((works_workFrom 0 stitches).copies count).reached_eq
  omega

/-- How far a pattern moves the offset. -/
def Pattern.drift : Pattern → Int
  | .magicCircle count => count.toNat - 1
  | .magicEllipse extension => 2 * extension.toNat + 5
  | .bend _ _ => 0

namespace Command

mutual

/-- How far a command moves the offset. -/
def drift : Command → Int
  | .stitch s => s.drift
  | .pattern p => p.drift
  | .group commands times => times.toNat * driftAll commands

/-- How far commands move the offset together. -/
def driftAll : List Command → Int
  | [] => 0
  | command :: rest => command.drift + driftAll rest

end

end Command

theorem Pattern.totalDrift_eq {pattern : Pattern} {stitches : List Stitch}
    (h : unfoldAll [.pattern pattern] = .ok stitches) : totalDrift stitches = pattern.drift := by
  cases pattern with
  | magicCircle count =>
      by_cases hzero : count = 0
      · have herror : ∃ fault, (Pattern.magicCircle count).layout = .error fault := by
          rw [layout, circleMotifs, if_pos hzero]
          exact ⟨_, rfl⟩
        obtain ⟨fault, hfault⟩ := herror
        rw [unfoldAll_pattern_error hfault] at h
        contradiction
      · have hpositive : 1 ≤ count.toNat :=
          Nat.one_le_iff_ne_zero.2 fun hcount => hzero (UInt32.toNat_inj.1 hcount)
        have hle : 1 ≤ count := UInt32.le_iff_toNat_le.2 hpositive
        rw [unfoldAll_magicCircle hle] at h
        obtain rfl := Except.ok.inj h
        have hreached := (works_circleStitches 0 hpositive).reached_eq
        rw [drift]
        omega
  | magicEllipse extension =>
      rw [unfoldAll_magicEllipse] at h
      obtain rfl := Except.ok.inj h
      have hreached := (works_ellipseStitches 0 extension.toNat).reached_eq
      rw [drift]
      omega
  | bend round depth =>
      by_cases hdepth : depth = 2
      · subst hdepth
        obtain ⟨rows, -, -, -, hunfold⟩ := exists_unfoldAll_bend round
        rw [hunfold] at h
        obtain rfl := Except.ok.inj h
        have hreached := (rows.works_rows 0).reached_eq
        rw [drift]
        omega
      · rw [unfoldAll_pattern_error ((layout_bend_eq_error_iff _ _ _).2 ⟨hdepth, rfl⟩)] at h
        contradiction

namespace Meaning

/-- Commands that have no fault move the offset by their drift. -/
theorem totalDrift_ofCommands {commands : List Command} {stitches : List Stitch}
    (heach : ∀ command ∈ commands, ∀ stitches,
      ofCommand command = ⟨stitches, none⟩ → totalDrift stitches = command.drift)
    (h : ofCommands commands = ⟨stitches, none⟩) :
    totalDrift stitches = Command.driftAll commands := by
  induction commands generalizing stitches with
  | nil =>
      obtain rfl := (Meaning.mk.inj h).1
      rfl
  | cons command rest ih =>
      obtain ⟨hcommand, hrest⟩ := List.forall_mem_cons.1 heach
      obtain ⟨front, back, hfront, hback, rfl⟩ := (andThen_eq_unfaulted_iff _ _ _).1 h
      rw [totalDrift_append, Command.driftAll, hcommand front hfront, ih hrest hback]

theorem totalDrift_ofCommand {command : Command} {stitches : List Stitch}
    (h : ofCommand command = ⟨stitches, none⟩) : totalDrift stitches = command.drift := by
  induction command generalizing stitches with
  | stitch s =>
      obtain rfl := (Meaning.mk.inj h).1
      rw [totalDrift_cons, Command.drift]
      simp [totalDrift]
  | pattern p =>
      rw [← ofCommands_singleton, ← unfoldAll_eq_ok_iff] at h
      rw [Pattern.totalDrift_eq h, Command.drift]
  | group commands count ih =>
      rw [Command.drift]
      rcases times_eq_unfaulted h with ⟨hzero, rfl⟩ | ⟨pass, hpass, rfl⟩
      · simp [hzero, totalDrift]
      · have heach : ∀ command ∈ commands, ∀ stitches,
            ofCommand command = ⟨stitches, none⟩ → totalDrift stitches = command.drift :=
          fun command hmem _ => ih command hmem
        rw [totalDrift_copies, totalDrift_ofCommands heach hpass]

end Meaning

theorem totalDrift_of_unfoldAll {commands : List Command} {stitches : List Stitch}
    (h : unfoldAll commands = .ok stitches) :
    totalDrift stitches = Command.driftAll commands := by
  rw [unfoldAll_eq_ok_iff] at h
  exact Meaning.totalDrift_ofCommands (fun _ _ _ => Meaning.totalDrift_ofCommand) h

/-! ## Groups -/

/-- A group of commands that unfold gives their stitches as often as it says. -/
theorem unfoldAll_group {commands : List Command} {body : List Stitch}
    (h : unfoldAll commands = .ok body) (times : UInt32) :
    unfoldAll [.group commands times] = .ok (List.replicate times.toNat body).flatten := by
  rw [unfoldAll_eq_ok_iff] at h ⊢
  rw [Meaning.ofCommands_singleton, Meaning.ofCommand, h, Meaning.times_unfaulted]

/-- A group is worked into the steps of its body, pass after pass.  Every pass has the steps of the
first one, further back by the drift of the body for each pass before, and the group moves the
offset by the drift of the body as often as it says.  The drift of the body is the sum of what its
commands drift, where a group in it counts as often as that group says. -/
theorem works_group {commands : List Command} {body : List Stitch}
    (h : unfoldAll commands = .ok body) (times : UInt32) :
    ∃ stitches, unfoldAll [.group commands times] = .ok stitches ∧
      (∀ offset, Works offset stitches
        (passSteps times.toNat (totalDrift body) (workFrom offset body).steps)
        (offset + times.toNat * totalDrift body)) ∧
      totalDrift stitches = times.toNat * totalDrift body ∧
      totalDrift body = Command.driftAll commands := by
  refine ⟨_, unfoldAll_group h times, ?_, totalDrift_copies times.toNat body,
    totalDrift_of_unfoldAll h⟩
  intro offset
  exact (works_workFrom offset body).copies times.toNat

theorem works_group_of_nested :
    unfoldAll [.stitch .increaseDecrease, .group [.stitch .back] 2] =
        .ok [increaseDecrease, back, back] ∧
      ∃ stitches,
        unfoldAll [.group [.stitch .increaseDecrease, .group [.stitch .back] 2] 3] =
          .ok stitches ∧
        Works (-1) stitches
          [.sc (-1), .scTwo (-1) 0, .sc 0, .sc 2, .scTwo 2 3, .sc 3, .sc 5, .scTwo 5 6, .sc 6] 8 ∧
        totalDrift stitches = 9 ∧
        totalDrift [increaseDecrease, back, back] =
          Command.driftAll [.stitch .increaseDecrease, .group [.stitch .back] 2] := by
  have hbody : unfoldAll [.stitch .increaseDecrease, .group [.stitch .back] 2] =
      .ok [increaseDecrease, back, back] := by
    decide +kernel
  obtain ⟨stitches, hunfold, hworks, hdrift, hcommands⟩ := works_group hbody 3
  exact ⟨hbody, stitches, hunfold, hworks (-1), hdrift, hcommands⟩

end CrochetShorthand
