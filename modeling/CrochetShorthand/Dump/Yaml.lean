import CrochetShorthand.Dump.Tree

/-!
# YAML dumps

A dump is written as YAML in block style.  A value under a tag is the value after the tag.
The items of a list that is a field stand at the column of the field.

A tag directly under a tag has no block form here, so a dump that holds one is refused.
-/

namespace CrochetShorthand.Dump

/-- The lines of a value: what goes on the line that is already begun, if anything, and the
lines below it, relative to the column of the value. -/
structure Block where
  head : Option Text
  below : List Text
deriving DecidableEq, Repr

namespace Block

/-- The text after something on the same line, with one blank before a head. -/
def afterText (before : Text) (block : Block) : Text :=
  match block.head with
  | none => before
  | some head => before ++ ' ' :: head

/-- The lines of a list item: the first is marked by a hyphen and the others stand below. -/
def item (block : Block) : List Text :=
  match block.head, block.below with
  | some head, below => (['-', ' '] ++ head) :: below.map ([' ', ' '] ++ ·)
  | none, [] => [['-']]
  | none, first :: below => (['-', ' '] ++ first) :: below.map ([' ', ' '] ++ ·)

/-- The lines of a field. -/
def field (name : Text) (block : Block) : List Text :=
  block.afterText (name ++ [':']) :: block.below

end Block

/-- Whether a dump is a value under a tag. -/
def isTagged : Dump → Bool
  | .tagged _ _ => true
  | _ => false

mutual

/-- The block of a dump; `none` when a tag stands directly under a tag. -/
def block? : Dump → Option Block
  | .word characters => some ⟨some characters, []⟩
  | .number value => some ⟨some (Decimal.ofInt value), []⟩
  | .list [] => some ⟨some ['[', ']'], []⟩
  | .list (item :: rest) => (itemLines? (item :: rest)).map fun lines => ⟨none, lines⟩
  | .record fields => (fieldLines? fields).map fun lines => ⟨none, lines⟩
  | .tagged tag payload =>
      if isTagged payload then none
      else (block? payload).map fun block => ⟨some (block.afterText ('!' :: tag)), block.below⟩

/-- The lines of the items of a list. -/
def itemLines? : List Dump → Option (List Text)
  | [] => some []
  | item :: rest =>
      match block? item, itemLines? rest with
      | some block, some lines => some (block.item ++ lines)
      | _, _ => none

/-- The lines of the fields of a record. -/
def fieldLines? : List (Text × Dump) → Option (List Text)
  | [] => some []
  | (name, value) :: rest =>
      match block? value, fieldLines? rest with
      | some block, some lines => some (block.field name ++ lines)
      | _, _ => none

end

/-- The lines of a dump that begins on a line of its own. -/
def Block.lines (block : Block) : List Text :=
  block.head.toList ++ block.below

/-- A YAML document that holds a dump: the document mark, then the lines. -/
def yamlDocument? (dump : Dump) : Option Text :=
  (block? dump).map fun block =>
    (("---".toList :: block.lines).map (· ++ ['\n'])).flatten

end CrochetShorthand.Dump
