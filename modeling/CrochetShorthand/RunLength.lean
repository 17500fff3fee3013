import CrochetShorthand.Step

/-!
# Runs of steps

Neighbouring steps with the same text show as one display token: the text alone for one
step, the text in parentheses and the count for more.

The run that is still growing is held back, so the last run of a line has to be flushed.
-/

namespace CrochetShorthand

/-- A text, and how often it came in a row. -/
structure Run where
  text : Text
  count : Nat
deriving DecidableEq, Repr

namespace Run

/-- The display token of a run. -/
def render (run : Run) : Text :=
  if run.count = 1 then run.text
  else '(' :: run.text ++ ')' :: Decimal.ofNat run.count

/-- The token that a further step completes, if any, and the run held back after it. -/
def feed (held : Option Run) (step : Step) : Option Text × Option Run :=
  let text := step.render
  match held with
  | none => (none, some ⟨text, 1⟩)
  | some run =>
      if run.text = text then (none, some ⟨run.text, run.count + 1⟩)
      else (some run.render, some ⟨text, 1⟩)

/-- The token of the run held back; nothing is held back after it. -/
def flush (held : Option Run) : Option Text :=
  held.map render

/-- Feed one more step, where the completed tokens stand with the latest first. -/
def feedOnto (state : List Text × Option Run) (step : Step) : List Text × Option Run :=
  let fed := feed state.2 step
  (fed.1.toList ++ state.1, fed.2)

end Run

/-- The display tokens of a sequence of steps. -/
def displayAll (steps : List Step) : List Text :=
  let fed := steps.foldl Run.feedOnto ([], none)
  ((Run.flush fed.2).toList ++ fed.1).reverse

end CrochetShorthand
