import CrochetShorthand.Fault
import CrochetShorthand.Motif

/-!
# Pattern layouts

A pattern is laid out as a short list of motifs, whatever its arguments.  A magic circle
needs at least one stitch.  A bend is laid out in two rows, and only a depth of two is
covered; the arithmetic of its rows is `BendRows`.
-/

namespace CrochetShorthand

/-- The measures of a bend of two rows.  A row is four segments and a padding, which takes
the remainder of the division. -/
structure BendRows where
  round : UInt32
  segment : UInt32
  padding : UInt32
deriving DecidableEq, Repr

namespace BendRows

/-- The only depth of a bend that has a layout. -/
def coveredDepth : UInt32 := 2

/-- The measures of the bend: a segment is a quarter of the round, rounded down, and the
padding is what four segments leave of it. -/
def of (round depth : UInt32) : Except Fault BendRows :=
  if depth ≠ coveredDepth then .error (.bendDepth round depth)
  else
    let segment := round / (depth * 2)
    let worked := segment.toNat * 4
    if worked ≤ round.toNat then
      .ok ⟨round, segment, UInt32.ofNat (round.toNat - worked)⟩
    else
      .error (.internal
        ((Pattern.bend round depth).render ++ " segments overflow the round".toList))

/-- The first row, then the second: each works the round's stitches once, and the second
goes back to the start of the first and skips to its end. -/
def motifs (rows : BendRows) : List Motif :=
  [ -- The first row.
    ⟨[.singleCrochet], rows.segment⟩,
    ⟨[.chain], 2 * rows.segment⟩,
    ⟨[.singleCrochet], rows.segment⟩,
    ⟨[.singleCrochet], rows.padding⟩,
    -- The second row.
    ⟨[.singleCrochet], rows.segment⟩,
    ⟨[.back], rows.round⟩,
    ⟨[.singleCrochet], 2 * rows.segment⟩,
    ⟨[.skip], rows.round⟩,
    ⟨[.singleCrochet], rows.segment⟩,
    ⟨[.singleCrochet], rows.padding⟩]

end BendRows

namespace Pattern

/-- Two foundation chains, then the ring closed one stitch at a time. -/
def circleMotifs (stitches : UInt32) : Except Fault (List Motif) :=
  if stitches = 0 then
    .error (.internal ("magic circle needs at least one stitch, got ".toList ++
      Decimal.ofNat stitches.toNat))
  else
    .ok [⟨[.chain], 2⟩, ⟨[.back, .singleCrochet], stitches - 1⟩]

/-- The foundation, the first side, the turn and the second side of an oval. -/
def ellipseMotifs (extension : UInt32) : List Motif :=
  [ -- The foundation.
    ⟨[.chain], 1⟩,
    ⟨[.chain], extension⟩,
    ⟨[.chain], 2⟩,
    -- The first side.
    ⟨[.back], 1⟩,
    ⟨[.singleCrochet], 1⟩,
    ⟨[.back], 1⟩,
    ⟨[.back, .singleCrochet, .back], extension⟩,
    -- The turn, and the second side.
    ⟨[.back, .singleCrochet, .back, .singleCrochet, .back, .singleCrochet], 1⟩,
    ⟨[.singleCrochet], extension⟩,
    ⟨[.singleCrochet, .back, .singleCrochet, .skip], 1⟩]

/-- The motifs of a pattern. -/
def layout : Pattern → Except Fault (List Motif)
  | .magicCircle stitches => circleMotifs stitches
  | .magicEllipse extension => .ok (ellipseMotifs extension)
  | .bend round depth =>
      match BendRows.of round depth with
      | .error fault => .error fault
      | .ok rows => .ok rows.motifs

end Pattern

end CrochetShorthand
