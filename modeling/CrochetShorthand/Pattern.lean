import CrochetShorthand.Text.Decimal

/-!
# Patterns

A pattern is a parameterized start of a piece of work: a magic circle, a magic ellipse or a
bend.  Its arguments are 32-bit words.
-/

namespace CrochetShorthand

/-- A parameterized construct that unfolds into a fixed sequence of stitches. -/
inductive Pattern
  /-- A ring closed over `stitches` stitches. -/
  | magicCircle (stitches : UInt32)
  /-- An oval extended by `extension` stitches. -/
  | magicEllipse (extension : UInt32)
  /-- A bend of a round of `round` stitches, `depth` rows deep. -/
  | bend (round depth : UInt32)
deriving DecidableEq, Repr

/-- The notation of a pattern, its arguments without leading zeros. -/
def Pattern.render : Pattern → Text
  | .magicCircle n => ['m', 'c', '('] ++ Decimal.ofNat n.toNat ++ [')']
  | .magicEllipse n => ['m', 'e', '('] ++ Decimal.ofNat n.toNat ++ [')']
  | .bend round depth =>
      ['b', 'e', 'n', 'd', '('] ++ Decimal.ofNat round.toNat ++ [','] ++
        Decimal.ofNat depth.toNat ++ [')']

end CrochetShorthand
