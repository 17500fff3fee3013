import CrochetShorthand.Step
import CrochetShorthand.Stitch

/-!
# Working stitches into steps

The simulator addresses a stitch by how many stitches ago it was made.  Going back and
skipping move the place of work without a step; the sum of these moves is the offset, the
only thing that one stitch leaves for the next.

| stitch | steps at offset `o` | drift |
|---|---|---|
| `c` | `c` | |
| `sc` | `sc-o` | |
| `inc` | `sc-o`, `sc-(o+1)` | `+1` |
| `incdec` | `sc-o`, `sc-o-(o+1)`, `sc-(o+1)` | `+1` |
| `dec` | `sc-o-(o-1)` | `-1` |
| `sk` | | `-1` |
| `bk` | | `+1` |
-/

namespace CrochetShorthand

namespace Stitch

/-- How far a stitch moves the offset. -/
def drift : Stitch → Int
  | .chain => 0
  | .singleCrochet => 0
  | .increase => 1
  | .increaseDecrease => 1
  | .decrease => -1
  | .skip => -1
  | .back => 1

/-- The steps of a stitch worked at an offset. -/
def steps (offset : Int) : Stitch → List Step
  | .chain => [.chain]
  | .singleCrochet => [.sc offset]
  | .increase => [.sc offset, .sc (offset + 1)]
  | .increaseDecrease => [.sc offset, .scTwo offset (offset + 1), .sc (offset + 1)]
  | .decrease => [.scTwo offset (offset - 1)]
  | .skip => []
  | .back => []

end Stitch

/-- The offset reached, and the steps so far with the latest first. -/
structure Working where
  offset : Int
  latest : List Step
deriving DecidableEq, Repr

namespace Working

/-- Work one more stitch. -/
def work (working : Working) (stitch : Stitch) : Working :=
  ⟨working.offset + stitch.drift,
    (stitch.steps working.offset).reverse ++ working.latest⟩

/-- The steps so far, in order. -/
def steps (working : Working) : List Step :=
  working.latest.reverse

theorem steps_work (working : Working) (stitch : Stitch) :
    (working.work stitch).steps = working.steps ++ stitch.steps working.offset := by
  simp [work, steps]

end Working

/-- Work a sequence of stitches that starts at an offset. -/
def workFrom (offset : Int) (stitches : List Stitch) : Working :=
  stitches.foldl Working.work ⟨offset, []⟩

/-- The steps of a sequence of stitches worked from the start. -/
def workAll (stitches : List Stitch) : List Step :=
  (workFrom 0 stitches).steps

end CrochetShorthand
