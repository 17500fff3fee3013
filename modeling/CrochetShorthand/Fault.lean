import CrochetShorthand.Pattern

/-!
# Faults

Why a line cannot be worked.  Any fault ends the work on its line.  Apart from internal
faults, a message quotes what is at fault between single quotes.
-/

namespace CrochetShorthand

/-- The coarse kind of a fault. -/
inductive Fault.Category
  /-- A piece has no shape of the notation. -/
  | lexical
  /-- The shape is known, but its parameters are out of reach. -/
  | unsupported
  /-- A promise of the library itself is broken. -/
  | internal
deriving DecidableEq, Repr

/-- Why a line cannot be worked. -/
inductive Fault
  /-- The piece is no stitch, no pattern and no group, or a count in it is out of range. -/
  | unknownPiece (piece : Text)
  /-- The bend has a depth that no layout covers. -/
  | bendDepth (round depth : UInt32)
  /-- The group sits inside as many groups as the limit allows. -/
  | tooDeep (piece : Text) (limit : Nat)
  /-- A promise of the library itself is broken. -/
  | internal (reason : Text)
deriving DecidableEq, Repr

namespace Fault

def category : Fault → Category
  | .unknownPiece _ => .lexical
  | .bendDepth _ _ => .unsupported
  | .tooDeep _ _ => .unsupported
  | .internal _ => .internal

/-- The name of a category, as the log has it. -/
def Category.name : Category → Text
  | .lexical => "Lex".toList
  | .unsupported => "Unsupported".toList
  | .internal => "Internal".toList

/-- The message that reports a fault. -/
def message : Fault → Text
  | .unknownPiece piece => "Unknown input '".toList ++ piece ++ "'.".toList
  | .bendDepth round depth =>
      "Only a bend depth of 2 is supported, found '".toList ++
        (Pattern.bend round depth).render ++ "'.".toList
  | .tooDeep piece limit =>
      "Group '".toList ++ piece ++ "' is nested more than ".toList ++ Decimal.ofNat limit ++
        " levels deep.".toList
  | .internal reason => "Internal error: ".toList ++ reason

end Fault

end CrochetShorthand
