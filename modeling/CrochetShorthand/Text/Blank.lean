/-!
# Text and blanks

A line of shorthand is a list of characters.  Words are separated by blanks: the
characters that Unicode lists under `White_Space`, twenty-five of them.
-/

namespace CrochetShorthand

/-- Text is handled as the list of its code points. -/
abbrev Text := List Char

namespace Text

/-- The code point ranges of the property `White_Space`, both ends included. -/
def blankRanges : List (Nat × Nat) :=
  [(0x09, 0x0D), (0x20, 0x20), (0x85, 0x85), (0xA0, 0xA0), (0x1680, 0x1680), (0x2000, 0x200A),
    (0x2028, 0x2029), (0x202F, 0x202F), (0x205F, 0x205F), (0x3000, 0x3000)]

/-- A blank is a character of the property `White_Space`. -/
def isBlank (c : Char) : Bool :=
  blankRanges.any fun range => range.1 ≤ c.toNat && c.toNat ≤ range.2

/-- The text without its leading blanks. -/
def trimStart (t : Text) : Text :=
  t.dropWhile isBlank

/-- The text without the blanks at both of its ends. -/
def trim (t : Text) : Text :=
  (trimStart (trimStart t).reverse).reverse

/-- The texts in order, with `separator` between neighbours. -/
def joinWith (separator : Text) : List Text → Text
  | [] => []
  | [t] => t
  | t :: u :: rest => t ++ separator ++ joinWith separator (u :: rest)

/-- The text without a byte order mark at its start. -/
def withoutMark : Text → Text
  | '\uFEFF' :: rest => rest
  | t => t

/-- Every upper case ASCII letter made lower case. -/
def lowered (t : Text) : Text :=
  t.map Char.toLower

/-- The whole text in parts: one part before each `separator`, and the part after the last. -/
def splitAt (separator : Char) : Text → List Text
  | [] => [[]]
  | c :: rest =>
      if c = separator then [] :: splitAt separator rest
      else
        match splitAt separator rest with
        | [] => [[c]]
        | part :: parts => (c :: part) :: parts

/-- The text before and after the last `mark`; `none` when `mark` does not occur. -/
def splitLast (mark : Char) : Text → Option (Text × Text)
  | [] => none
  | c :: rest =>
      match splitLast mark rest with
      | some (before, after) => some (c :: before, after)
      | none => if c = mark then some ([], rest) else none

end Text

end CrochetShorthand
