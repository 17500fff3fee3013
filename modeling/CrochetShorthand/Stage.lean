import CrochetShorthand.Command.Reading
import CrochetShorthand.Unfolding
import CrochetShorthand.RunLength
import CrochetShorthand.Working

/-!
# Stages of a whole line

The same work as in a report, but one stage after another, each for the whole line: all
pieces are read before any is unfolded.  A line that fails gives nothing but its fault.
-/

namespace CrochetShorthand

/-- How far a line is taken. -/
inductive Stage
  | display
  | tokens
  | stitches
  | steps
deriving DecidableEq, Repr

namespace Stage

/-- The commands of a line. -/
def tokensOf (limit : Nat) (line : Text) : Except Fault (List Command) :=
  Command.readLine limit line

/-- The stitches of a line. -/
def stitchesOf (limit : Nat) (line : Text) : Except Fault (List Stitch) :=
  match tokensOf limit line with
  | .error fault => .error fault
  | .ok commands => unfoldAll commands

/-- The steps of a line, from the start. -/
def stepsOf (limit : Nat) (line : Text) : Except Fault (List Step) :=
  (stitchesOf limit line).map workAll

/-- The display tokens of a line, the last run included. -/
def displaysOf (limit : Nat) (line : Text) : Except Fault (List Text) :=
  (stepsOf limit line).map displayAll

end Stage

end CrochetShorthand
