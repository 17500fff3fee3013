import CrochetShorthand.Text.Blank

/-!
# Stitches

The seven primitive instructions of the shorthand.  Each has the keyword that spells it in
a line and a short code.
-/

namespace CrochetShorthand

/-- One primitive crochet instruction. -/
inductive Stitch
  | chain
  | singleCrochet
  | increase
  | increaseDecrease
  | decrease
  | skip
  | back
deriving DecidableEq, Repr

namespace Stitch

/-- Every stitch, in the order of the keywords. -/
def all : List Stitch :=
  [.chain, .singleCrochet, .increase, .increaseDecrease, .decrease, .skip, .back]

/-- The keyword that spells a stitch in a line. -/
def keyword : Stitch → Text
  | .chain => ['c']
  | .singleCrochet => ['s', 'c']
  | .increase => ['i', 'n', 'c']
  | .increaseDecrease => ['i', 'n', 'c', 'd', 'e', 'c']
  | .decrease => ['d', 'e', 'c']
  | .skip => ['s', 'k']
  | .back => ['b', 'k']

/-- The short code of a stitch: its keyword, except that an increase-decrease is `incd`. -/
def code : Stitch → Text
  | .increaseDecrease => ['i', 'n', 'c', 'd']
  | stitch => stitch.keyword

/-- The name of a stitch written out, as the dumps have it. -/
def name : Stitch → Text
  | .chain => "chain".toList
  | .singleCrochet => "single_crochet".toList
  | .increase => "increase".toList
  | .increaseDecrease => "increase_decrease".toList
  | .decrease => "decrease".toList
  | .skip => "skip".toList
  | .back => "back".toList

theorem keyword_injective {s t : Stitch} (h : s.keyword = t.keyword) : s = t := by
  cases s <;> cases t <;> simp_all [keyword]

end Stitch

end CrochetShorthand
