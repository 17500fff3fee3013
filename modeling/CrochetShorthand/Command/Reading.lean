import CrochetShorthand.Command
import CrochetShorthand.Fault
import CrochetShorthand.Line
import CrochetShorthand.Word

/-!
# Reading commands

A piece that starts with an opening bracket is a group, any other piece is a word.  A group
is an opening bracket, a body, the last closing bracket and a count.  Its body is read as a
line of its own, one level deeper; the number of levels is limited.

A line, or a group body, that starts with `//` is a comment and says nothing.

Reading a line is lazy over its pieces: `readEach` reads them one by one whether or not an
earlier one fails, `readLine` gives all commands or the first fault.
-/

namespace CrochetShorthand

namespace Command

/-- How many groups may be nested inside each other, unless the settings say otherwise. -/
def standardLimit : Nat := 32

/-- Whether a line starts with the comment mark `//`.  Blanks in front of it do not count. -/
def isComment : Text → Bool
  | '/' :: '/' :: _ => true
  | _ => false

/-- The pieces that a line has to say: none when it is a comment. -/
def spokenPieces (line : Text) : List Text :=
  if isComment line then [] else piecesOf line

/-- The command of a piece outside brackets. -/
def ofWord? (piece : Text) : Option Command :=
  match Word.ofPiece? piece with
  | none => none
  | some (.keyword s) => some (.stitch s)
  | some .magicCircle =>
      match Word.counts? 1 piece with
      | some [stitches] => some (.pattern (.magicCircle stitches))
      | _ => none
  | some .magicEllipse =>
      match Word.counts? 1 piece with
      | some [extension] => some (.pattern (.magicEllipse extension))
      | _ => none
  | some .bend =>
      match Word.counts? 2 piece with
      | some [round, depth] => some (.pattern (.bend round depth))
      | _ => none

/-- The body and the count of a group piece: a body that is not empty, up to the last closing
bracket, and a count from there to the end. -/
def groupParts? : Text → Option (Text × UInt32)
  | '[' :: rest =>
      match Text.splitLast ']' rest with
      | none => none
      | some (body, digits) =>
          if body.isEmpty then none
          else (Decimal.count? digits).map fun times => (body, times)
  | _ => none

/-- Whether a piece is to be read as a group. -/
def opensGroup : Text → Bool
  | '[' :: _ => true
  | _ => false

/-- Read one piece while `levels` more groups may be nested, out of `limit`. -/
def readPieceAt (limit levels : Nat) (piece : Text) : Except Fault Command :=
  if opensGroup piece then
    match groupParts? piece with
    | none => .error (.unknownPiece piece)
    | some (body, times) =>
        match levels with
        | 0 => .error (.tooDeep piece limit)
        | levels + 1 =>
            match (spokenPieces body).mapM (readPieceAt limit levels) with
            | .error fault => .error fault
            | .ok commands => .ok (.group commands times)
  else
    match ofWord? piece with
    | none => .error (.unknownPiece piece)
    | some command => .ok command

/-- Read one piece, which is neither split nor trimmed. -/
def readPiece (limit : Nat) (piece : Text) : Except Fault Command :=
  readPieceAt limit limit piece

/-- Read every piece of a line, also those after a piece that fails. -/
def readEach (limit : Nat) (line : Text) : List (Except Fault Command) :=
  (spokenPieces line).map (readPiece limit)

/-- The commands of a line, or the fault of the first piece that has one. -/
def readLine (limit : Nat) (line : Text) : Except Fault (List Command) :=
  (spokenPieces line).mapM (readPiece limit)

end Command

end CrochetShorthand
