import CrochetShorthand.Text.Decimal

/-!
# Simulator steps

The simulator knows a chain, and a single crochet worked into one stitch or into two
stitches at once.  A stitch is addressed by how many stitches ago it was made; the address
may be negative.
-/

namespace CrochetShorthand

/-- One instruction of the simulator. -/
inductive Step
  | chain
  /-- A single crochet into the stitch made `ago` stitches ago. -/
  | sc (ago : Int)
  /-- A single crochet into two stitches at once. -/
  | scTwo (first second : Int)
deriving DecidableEq, Repr

/-- The text of a step: `c`, `sc-n` or `sc-m-n`.  A negative address keeps its own hyphen. -/
def Step.render : Step → Text
  | .chain => ['c']
  | .sc ago => ['s', 'c', '-'] ++ Decimal.ofInt ago
  | .scTwo first second =>
      ['s', 'c', '-'] ++ Decimal.ofInt first ++ ['-'] ++ Decimal.ofInt second

end CrochetShorthand
