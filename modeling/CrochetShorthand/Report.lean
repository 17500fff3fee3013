import CrochetShorthand.Command.Reading
import CrochetShorthand.Unfolding
import CrochetShorthand.RunLength
import CrochetShorthand.Working

/-!
# The report of a line

A line is worked piece by piece: each piece is read, unfolded, worked and shown before the
next one is looked at.  When a piece fails, the display tokens completed so far stand,
the run held back is lost, and the rest of the line is left alone.
-/

namespace CrochetShorthand

/-- How far the work on a line has come. -/
structure Progress where
  offset : Int
  /-- The run held back. -/
  held : Option Run
  /-- The completed display tokens, the latest first. -/
  latest : List Text
  /-- How many steps have been made. -/
  stepCount : Nat
deriving DecidableEq, Repr

namespace Progress

/-- Nothing is worked yet; the offset and the run held back are given. -/
def resume (offset : Int) (held : Option Run) : Progress :=
  ⟨offset, held, [], 0⟩

/-- The start of a line. -/
def start : Progress :=
  resume 0 none

/-- The completed display tokens, in order. -/
def displays (progress : Progress) : List Text :=
  progress.latest.reverse

/-- Show one more step. -/
def feed (progress : Progress) (step : Step) : Progress :=
  let fed := Run.feed progress.held step
  ⟨progress.offset, fed.2, fed.1.toList ++ progress.latest, progress.stepCount + 1⟩

/-- Move the offset. -/
def move (progress : Progress) (drift : Int) : Progress :=
  ⟨progress.offset + drift, progress.held, progress.latest, progress.stepCount⟩

/-- Work one stitch: show its steps, then move the offset. -/
def work (progress : Progress) (stitch : Stitch) : Progress :=
  ((stitch.steps progress.offset).foldl feed progress).move stitch.drift

/-- Complete the run held back. -/
def flush (progress : Progress) : Progress :=
  ⟨progress.offset, none, (Run.flush progress.held).toList ++ progress.latest,
    progress.stepCount⟩

/-- Work the pieces in order, up to the first fault. -/
def workPieces (limit : Nat) : List Text → Progress → Progress × Option Fault
  | [], progress => (progress, none)
  | piece :: rest, progress =>
      match Command.readPiece limit piece with
      | .error fault => (progress, some fault)
      | .ok command =>
          match (Unfolding.ofCommand command).foldl work progress with
          | (reached, some fault) => (reached, some fault)
          | (reached, none) => workPieces limit rest reached

/-- Work a line, up to the first fault. -/
def workLine (limit : Nat) (line : Text) (progress : Progress) : Progress × Option Fault :=
  workPieces limit (Command.spokenPieces line) progress

end Progress

/-- What came of a line: the display tokens up to the first fault, and the fault. -/
structure Report where
  displays : List Text
  fault : Option Fault
deriving DecidableEq, Repr

namespace Report

/-- The report of the work on a line: the last run is flushed when there was no fault. -/
def ofProgress : Progress × Option Fault → Report
  | (progress, some fault) => ⟨progress.displays, some fault⟩
  | (progress, none) => ⟨progress.flush.displays, none⟩

/-- Whether the whole line was worked. -/
def isOk (report : Report) : Bool :=
  report.fault.isNone

/-- The display tokens of a line that was worked, or the fault. -/
def toExcept (report : Report) : Except Fault (List Text) :=
  match report.fault with
  | some fault => .error fault
  | none => .ok report.displays

/-- The report of one line, worked from the start. -/
def ofLine (limit : Nat) (line : Text) : Report :=
  ofProgress (Progress.start.workLine limit line)

end Report

end CrochetShorthand
