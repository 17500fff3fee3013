import CrochetShorthand.Proofs.DepthWords
import CrochetShorthand.Proofs.Grammar

/-!
# A line that goes on

What is shown of a line is never taken back when the line goes on behind a blank.  The only thing
that may still change is the last token, because its run may grow.  A line that has failed has
nothing left to change: what follows is not looked at.

The line may have closed more brackets than it opened, but it must not leave one open, because a
blank inside brackets ends no piece.  The depth with which the line ends is carried on, and may
split what follows otherwise than it would split by itself.

Whether a bracket is left open is for the word of 32 bits to say that holds the depth.  It says what
the brackets say, with one exception: a build that wraps takes 2147483649 closing brackets too many
for 2147483647 opening ones, and a blank behind these ends no piece.
-/

namespace CrochetShorthand

open Text (isBlank)

/-! ## Pieces -/

/-- A line that goes on behind a blank says its own pieces and some later ones. -/
theorem Overflow.exists_spokenPieces_append (overflow : Overflow) {c : Char}
    (hc : isBlank c = true) {line : Text}
    (hbalance : overflow.held32 ((line.count '[' : Int) - line.count ']') ≤ 0) (rest : Text) :
    ∃ later, overflow.spokenPieces (line ++ c :: rest) = overflow.spokenPieces line ++ later := by
  have hmark : c ≠ '/' := by
    rintro rfl
    exact absurd hc (by decide)
  have hcomment : Command.isComment (line ++ c :: rest) = Command.isComment line := by
    rw [Bool.eq_iff_iff, Command.isComment_iff, Command.isComment_iff,
      Command.comment_append_iff hmark]
  rw [spokenPieces, spokenPieces, hcomment]
  split
  · exact ⟨[], rfl⟩
  · refine @WordScan.exists_toList_append overflow c hc rest (.ofLine line) ?_
    show overflow.held32 (0 + LineScan.balance line) ≤ 0
    rw [LineScan.balance_eq_count, Int.zero_add]
    exact hbalance

/-! ## Tokens -/

/-- What every step of a fold only adds to is a prefix of what the fold comes to. -/
theorem prefix_foldl {σ α β : Type} {step : σ → α → σ} (output : σ → List β)
    (hstep : ∀ state x, output state <+: output (step state x)) (state : σ) (xs : List α) :
    output state <+: output (xs.foldl step state) := by
  induction xs generalizing state with
  | nil => exact List.prefix_rfl
  | cons x xs ih => exact (hstep state x).trans (ih (step state x))

namespace Progress

theorem displays_prefix_feed (progress : Progress) (step : Step) :
    progress.displays <+: (progress.feed step).displays := by
  rw [displays, displays, feed, List.reverse_append]
  exact List.prefix_append _ _

theorem displays_prefix_work (progress : Progress) (stitch : Stitch) :
    progress.displays <+: (progress.work stitch).displays :=
  prefix_foldl displays displays_prefix_feed progress (stitch.steps progress.offset)

theorem displays_prefix_unfold (progress : Progress) (command : Command) :
    progress.displays <+: ((Unfolding.ofCommand command).foldl work progress).1.displays := by
  rw [Unfolding.ofCommand, Unfolding.foldl_ofCommands]
  exact prefix_foldl displays displays_prefix_work progress _

theorem displays_prefix_flush (progress : Progress) :
    progress.displays <+: progress.flush.displays := by
  rw [displays, displays, flush, List.reverse_append]
  exact List.prefix_append _ _

/-- The flush adds at most the last token. -/
theorem dropLast_displays_flush_prefix (progress : Progress) :
    progress.flush.displays.dropLast <+: progress.displays := by
  rw [displays, displays, flush, List.reverse_append]
  cases progress.held with
  | none =>
      rw [Run.flush, Option.map_none, Option.toList_none, List.reverse_nil, List.append_nil]
      exact List.dropLast_prefix _
  | some run =>
      rw [Run.flush, Option.map_some]
      exact List.dropLast_concat ▸ List.prefix_rfl

end Progress

namespace Overflow

/-- More pulls only add tokens. -/
theorem displays_prefix_workPulls (overflow : Overflow) (limit : Nat)
    (pulls : List (Except Interrupt Text)) (progress : Progress) :
    progress.displays <+: (overflow.workPulls limit pulls progress).1.displays := by
  induction pulls generalizing progress with
  | nil => exact List.prefix_rfl
  | cons pull pulls ih =>
      rw [workPulls]
      split
      · exact List.prefix_rfl
      · rename_i command _
        have hcommand := progress.displays_prefix_unfold command
        split
        · rename_i reached fault hreached
          rw [hreached] at hcommand
          exact hcommand
        · rename_i reached hreached
          rw [hreached] at hcommand
          exact hcommand.trans (ih reached)

/-- Pulls after others are worked from where the first came to, unless these were interrupted. -/
theorem workPulls_append (overflow : Overflow) (limit : Nat)
    (first second : List (Except Interrupt Text)) (progress : Progress) :
    overflow.workPulls limit (first ++ second) progress =
      match overflow.workPulls limit first progress with
      | (reached, some interrupt) => (reached, some interrupt)
      | (reached, none) => overflow.workPulls limit second reached := by
  induction first generalizing progress with
  | nil => rfl
  | cons pull first ih =>
      rw [List.cons_append, workPulls, workPulls]
      cases pull.bind (overflow.readPieceWithin limit limit) with
      | error interrupt => rfl
      | ok command =>
          dsimp only
          obtain ⟨reached, fault⟩ := (Unfolding.ofCommand command).foldl Progress.work progress
          cases fault with
          | some fault => rfl
          | none => exact ih reached

end Overflow

/-! ## What comes of a line -/

namespace Emission

theorem displays_prefix_ofProgress (worked : Progress × Option Interrupt) :
    worked.1.displays <+: (ofProgress worked).displays := by
  obtain ⟨reached, interrupt⟩ := worked
  cases interrupt with
  | some interrupt => exact List.prefix_rfl
  | none => exact reached.displays_prefix_flush

-- The run of the last two stitches grows, and is lost when the line fails behind it.
example :
    (ofLine .wraps 32 "c c [sc]2".toList).displays = ["(c)2".toList, "(sc-0)2".toList] ∧
      (ofLine .wraps 32 "c c [sc]2 sc foo".toList).displays = ["(c)2".toList] := by
  decide +kernel

end Emission

end CrochetShorthand
