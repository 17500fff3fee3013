import CrochetShorthand.Dump.Tree

/-!
# JSON dumps

A dump is written as JSON without blanks.  A value under a tag is an object with one member,
whose name is the tag.
-/

namespace CrochetShorthand.Dump

/-- A JSON string of a text that needs no escapes. -/
def quoted (characters : Text) : Text :=
  '"' :: characters ++ ['"']

mutual

/-- The JSON text of a dump. -/
def json : Dump → Text
  | .word characters => quoted characters
  | .number value => Decimal.ofInt value
  | .list items => '[' :: jsonItems items ++ [']']
  | .record fields => '\x7b' :: jsonFields fields ++ ['\x7d']
  | .tagged tag payload => '\x7b' :: quoted tag ++ ':' :: json payload ++ ['\x7d']

/-- The items of an array, with commas between them. -/
def jsonItems : List Dump → Text
  | [] => []
  | [item] => json item
  | item :: next :: rest => json item ++ ',' :: jsonItems (next :: rest)

/-- The members of an object, with commas between them. -/
def jsonFields : List (Text × Dump) → Text
  | [] => []
  | [(name, value)] => quoted name ++ ':' :: json value
  | (name, value) :: next :: rest =>
      quoted name ++ ':' :: json value ++ ',' :: jsonFields (next :: rest)

end

end CrochetShorthand.Dump
