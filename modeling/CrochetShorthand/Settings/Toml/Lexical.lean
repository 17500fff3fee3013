import CrochetShorthand.Settings.Toml.Number

/-!
# Blanks, keys and strings of a TOML document

Every reader gives what it read and the text after it.  A reader that may repeat takes its
fuel from the length of the text, and each repetition uses up at least one character.
-/

namespace CrochetShorthand.Settings.Toml

/-- Whether a character is a blank inside a line. -/
def isSpace (c : Char) : Bool :=
  c == ' ' || c == '\t'

def skipSpaces (t : Text) : Text :=
  t.dropWhile isSpace

/-- Whether a character may stand in a comment, or in a string as it is: no control character
of ASCII but the tab. -/
def isPlain (c : Char) : Bool :=
  c == '\t' || (0x20 ≤ c.toNat && c.toNat != 0x7F)

/-- The text after a line break. -/
def newline? : Text → Option Text
  | '\n' :: rest => some rest
  | '\r' :: '\n' :: rest => some rest
  | _ => none

/-- The text after a comment, if it starts with one. -/
def skipComment : Text → Text
  | '#' :: rest => rest.dropWhile isPlain
  | t => t

/-- The text after the end of the line: blanks, a comment, and a line break or the end of the
document. -/
def endOfLine? (t : Text) : Option Text :=
  match skipComment (skipSpaces t) with
  | [] => some []
  | rest => newline? rest

/-- The text after blanks, line breaks and comments. -/
def skipFiller : Nat → Text → Text
  | 0, t => t
  | fuel + 1, t =>
      let rest := skipComment (skipSpaces t)
      match newline? rest with
      | none => rest
      | some after => skipFiller fuel after

/-- The character of a number of hexadecimal digits, when it is one. -/
def hexChar? (count : Nat) (t : Text) : Option (Char × Text) :=
  let digits := t.take count
  let value := ofDigits 16 digits
  if digits.length = count && digits.all isHexDigit && Nat.isValidChar value then
    some (Char.ofNat value, t.drop count)
  else none

/-- The character of an escape, after its backslash. -/
def escape? : Text → Option (Char × Text)
  | 'b' :: rest => some ('\x08', rest)
  | 't' :: rest => some ('\t', rest)
  | 'n' :: rest => some ('\n', rest)
  | 'f' :: rest => some ('\x0c', rest)
  | 'r' :: rest => some ('\r', rest)
  | '"' :: rest => some ('"', rest)
  | '\\' :: rest => some ('\\', rest)
  | 'u' :: rest => hexChar? 4 rest
  | 'U' :: rest => hexChar? 8 rest
  | _ => none

/-- A string in double quotes, after its opening quote; `taken` holds what was read, the
latest first. -/
def basicString? (taken : Text) : Nat → Text → Option (Text × Text)
  | 0, _ => none
  | _ + 1, [] => none
  | _ + 1, '"' :: rest => some (taken.reverse, rest)
  | fuel + 1, '\\' :: rest =>
      match escape? rest with
      | none => none
      | some (c, after) => basicString? (c :: taken) fuel after
  | fuel + 1, c :: rest => if isPlain c then basicString? (c :: taken) fuel rest else none

/-- A string in single quotes, after its opening quote. -/
def literalString? (t : Text) : Option (Text × Text) :=
  let isBody (c : Char) := isPlain c && c != '\''
  match t.dropWhile isBody with
  | '\'' :: rest => some (t.takeWhile isBody, rest)
  | _ => none

/-- The end of a string over several lines, after three quotes or more: up to two of them
belong to the string. -/
def closeQuotes (quote : Char) (t : Text) : Nat × Text :=
  let inside := min 2 ((t.takeWhile (· == quote)).length - 3)
  (inside, t.drop (inside + 3))

/-- The text after blanks and line breaks. -/
def skipBreaks : Nat → Text → Text
  | 0, t => t
  | fuel + 1, t =>
      let rest := skipSpaces t
      match newline? rest with
      | none => rest
      | some after => skipBreaks fuel after

/-- The text after a backslash at the end of a line: the line break and all blanks after it
are left out. -/
def skipContinuation? (t : Text) : Option Text :=
  (newline? (skipSpaces t)).map fun after => skipBreaks after.length after

/-- A string over several lines, after its opening quotes.  Only the kind in double quotes
knows escapes. -/
def longString? (quote : Char) (taken : Text) : Nat → Text → Option (Text × Text)
  | 0, _ => none
  | fuel + 1, t =>
      match newline? t with
      | some after => longString? quote ('\n' :: taken) fuel after
      | none =>
          match t with
          | [] => none
          | c :: rest =>
              if c = quote then
                if 3 ≤ (t.takeWhile (· == quote)).length then
                  let closed := closeQuotes quote t
                  some (taken.reverse ++ List.replicate closed.1 quote, closed.2)
                else longString? quote (c :: taken) fuel rest
              else if c = '\\' ∧ quote = '"' then
                match skipContinuation? rest with
                | some after => longString? quote taken fuel after
                | none =>
                    match escape? rest with
                    | none => none
                    | some (escaped, after) => longString? quote (escaped :: taken) fuel after
              else if isPlain c then longString? quote (c :: taken) fuel rest
              else none

/-- A string over several lines: a line break right after the opening quotes is left out. -/
def longStringBody? (quote : Char) (t : Text) : Option (Text × Text) :=
  let body := (newline? t).getD t
  longString? quote [] (body.length + 1) body

/-- A string of any kind. -/
def string? : Text → Option (Text × Text)
  | '"' :: '"' :: '"' :: rest => longStringBody? '"' rest
  | '\'' :: '\'' :: '\'' :: rest => longStringBody? '\'' rest
  | '"' :: rest => basicString? [] (rest.length + 1) rest
  | '\'' :: rest => literalString? rest
  | _ => none

/-- Whether a character may stand in a key without quotes. -/
def isBareKeyChar (c : Char) : Bool :=
  c.isAlphanum || c == '_' || c == '-'

/-- One part of a key. -/
def keyPart? : Text → Option (Text × Text)
  | '"' :: rest => basicString? [] (rest.length + 1) rest
  | '\'' :: rest => literalString? rest
  | t =>
      let name := t.takeWhile isBareKeyChar
      if name.isEmpty then none else some (name, t.dropWhile isBareKeyChar)

/-- The parts of a key with points between them, and the text after the blanks that follow. -/
def keyParts? : Nat → Text → Option (List Text × Text)
  | 0, _ => none
  | fuel + 1, t =>
      match keyPart? t with
      | none => none
      | some (part, rest) =>
          match skipSpaces rest with
          | '.' :: after =>
              (keyParts? fuel (skipSpaces after)).map fun found => (part :: found.1, found.2)
          | after => some ([part], after)

/-- How many levels deep a document may be built: by the parts of one key, or by the lists and
tables that one value holds inside each other. -/
def deepest : Nat :=
  79

/-- A key, after the blanks in front of it. -/
def key? (t : Text) : Option (List Text × Text) :=
  match keyParts? (t.length + 1) (skipSpaces t) with
  | none => none
  | some (path, rest) => if path.length ≤ deepest then some (path, rest) else none

end CrochetShorthand.Settings.Toml
