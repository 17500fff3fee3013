import CrochetShorthand.RunLength
import CrochetShorthand.Settings

/-!
# Display lines read back

A display line holds the steps of a line of work, and they can be read back from it:
`Spacing.read?` drops the leading text, cuts the rest into tokens, reads each token as a step and
a count, and writes the runs out.

A token ends before the first character that no token has.  So the separator has to start with such
a character; what follows it in the separator does not matter.
-/

namespace CrochetShorthand

namespace Decimal

/-- The number that the digits at the start of a text spell, and the text behind them. -/
def leadingNat? (t : Text) : Option (Nat × Text) :=
  (value? (t.takeWhile Char.isDigit)).map fun n => (n, t.dropWhile Char.isDigit)

/-- The integer at the start of a text, and the text behind it. -/
def leadingInt? : Text → Option (Int × Text)
  | '-' :: rest => (leadingNat? rest).map fun found => (-(found.1 : Int), found.2)
  | t => (leadingNat? t).map fun found => ((found.1 : Int), found.2)

end Decimal

/-- The step that a text spells: `c`, or `sc` and one or two addresses, each behind a hyphen. -/
def Step.read? : Text → Option Step
  | ['c'] => some .chain
  | 's' :: 'c' :: '-' :: rest =>
      match Decimal.leadingInt? rest with
      | some (ago, []) => some (.sc ago)
      | some (first, '-' :: rest) =>
          match Decimal.leadingInt? rest with
          | some (second, []) => some (.scTwo first second)
          | _ => none
      | _ => none
  | _ => none

/-- A step, and how often it comes in a row. -/
structure StepRun where
  step : Step
  count : Nat
deriving DecidableEq, Repr

namespace StepRun

/-- The steps of a run, written out. -/
def steps (run : StepRun) : List Step :=
  List.replicate run.count run.step

/-- The display token of a run. -/
def render (run : StepRun) : Text :=
  Run.render ⟨run.step.render, run.count⟩

/-- The run that a display token shows: a step in parentheses and a count, or a step alone. -/
def read? : Text → Option StepRun
  | '(' :: rest =>
      match Text.splitLast ')' rest with
      | none => none
      | some (inside, digits) =>
          match Step.read? inside, Decimal.value? digits with
          | some step, some count => some ⟨step, count⟩
          | _, _ => none
  | t => (Step.read? t).map fun step => ⟨step, 1⟩

end StepRun

/-- Whether a character occurs in display tokens. -/
def Run.isTokenChar (c : Char) : Bool :=
  c == 'c' || c == 's' || c == '(' || c == ')' || c == '-' || c.isDigit

namespace Spacing

/-- The tokens of a line, where `width` characters stand between neighbours. -/
def tokensOf (width : Nat) : Text → List Text
  | [] => []
  | c :: rest =>
      (c :: rest.takeWhile Run.isTokenChar) ::
        tokensOf width ((rest.dropWhile Run.isTokenChar).drop width)
termination_by t => t.length
decreasing_by
  have hle := (List.dropWhile_sublist Run.isTokenChar (l := rest)).length_le
  simp only [List.length_drop, List.length_cons]
  omega

/-- The steps of a display line. -/
def read? (spacing : Spacing) (line : Text) : Option (List Step) :=
  ((tokensOf spacing.separator.length (line.drop spacing.leading.length)).mapM
    StepRun.read?).map fun runs => runs.flatMap StepRun.steps

end Spacing

end CrochetShorthand
