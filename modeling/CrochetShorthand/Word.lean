import CrochetShorthand.Stitch
import CrochetShorthand.Text.Decimal

/-!
# Words

The ten shapes that a piece outside brackets may have: the seven keywords, and the shapes of
the three patterns.  At the start of a text the scanner takes the longest shape that fits
there; a piece is a word only when that is the whole piece.

The shape alone is checked here.  `counts?` reads the numbers of a pattern in a scan of
its own, over the runs of digits in the piece.
-/

namespace CrochetShorthand

/-- The shape of a piece outside brackets. -/
inductive Word
  | keyword (stitch : Stitch)
  | magicCircle
  | magicEllipse
  | bend
deriving DecidableEq, Repr

namespace Word

/-- Every word, the keywords first. -/
def all : List Word :=
  Stitch.all.map keyword ++ [magicCircle, magicEllipse, bend]

/-- The part of a shape that the scanner matches at once. -/
inductive Part
  | text (characters : Text)
  /-- One digit or more. -/
  | digits
deriving DecidableEq, Repr

/-- The shape of a word. -/
def shape : Word → List Part
  | keyword stitch => [.text stitch.keyword]
  | magicCircle => [.text ['m', 'c', '('], .digits, .text [')']]
  | magicEllipse => [.text ['m', 'e', '('], .digits, .text [')']]
  | bend => [.text ['b', 'e', 'n', 'd', '('], .digits, .text [','], .digits, .text [')']]

/-- What is left of a text after the given characters, when it starts with them. -/
def dropText? : Text → Text → Option Text
  | [], t => some t
  | _ :: _, [] => none
  | c :: characters, d :: t => if c = d then dropText? characters t else none

/-- What is left of a text after a part of a shape.  Digits are taken as far as they go. -/
def Part.rest? : Part → Text → Option Text
  | .text characters, t => dropText? characters t
  | .digits, t =>
      if (t.takeWhile Char.isDigit).isEmpty then none else some (t.dropWhile Char.isDigit)

/-- What is left of a text after the parts of a shape, one after another. -/
def shapeRest? : List Part → Text → Option Text
  | [], t => some t
  | part :: parts, t =>
      match part.rest? t with
      | none => none
      | some rest => shapeRest? parts rest

/-- The candidate that leaves less of the text, the first one when both leave as much. -/
def longer : Option (Word × Text) → Option (Word × Text) → Option (Word × Text)
  | none, other => other
  | some candidate, none => some candidate
  | some candidate, some other =>
      if other.2.length < candidate.2.length then some other else some candidate

/-- The longest word that the text starts with, and what is left after it. -/
def scan? (t : Text) : Option (Word × Text) :=
  all.foldr (fun word best => longer ((shapeRest? word.shape t).map fun rest => (word, rest)) best)
    none

/-- The word that is the whole piece. -/
def ofPiece? (piece : Text) : Option Word :=
  match scan? piece with
  | some (word, []) => some word
  | _ => none

/-- The arguments of a pattern with `arity` of them: the piece holds as many runs of digits,
and each is a count. -/
def counts? (arity : Nat) (piece : Text) : Option (List UInt32) :=
  let runs := Decimal.runs piece
  if runs.length = arity then runs.mapM Decimal.count? else none

end Word

end CrochetShorthand
