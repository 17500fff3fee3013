import CrochetShorthand.Command.Reading
import CrochetShorthand.Settings.Key
import CrochetShorthand.Settings.Toml.Document

/-!
# Settings

The settings are built in layers: the built-in ones first, then the files in order, then the
overrides in order, whatever their place among the files.  Values are read with some freedom:
a text may be given as a number or a truth value, and a count as a text.
-/

namespace CrochetShorthand

/-- What stands around the display tokens of a line. -/
structure Spacing where
  /-- What stands before the first token. -/
  leading : Text
  /-- What stands between two tokens. -/
  separator : Text
deriving DecidableEq, Repr

/-- One line of display tokens.  The leading text stands there even without tokens. -/
def Spacing.join (spacing : Spacing) (displays : List Text) : Text :=
  spacing.leading ++ Text.joinWith spacing.separator displays

/-- What can be set. -/
structure Settings where
  /-- How many groups may be nested inside each other. -/
  maxGroupDepth : Nat
  spacing : Spacing
  /-- What asks for a line at a terminal. -/
  prompt : Text
  /-- The name of the log level. -/
  level : Text
deriving DecidableEq, Repr

namespace Settings

/-- Why settings cannot be built. -/
inductive Defect
  /-- The key of an override spells no path. -/
  | badKey (key : Text)
  | missingFile
  /-- A file is not well formed. -/
  | badFile
  /-- A field is missing, or its value has no meaning there. -/
  | badField (group field : Text)
deriving DecidableEq, Repr

/-- One layer of settings. -/
inductive Layer
  | override (key : Text) (value : Value)
  /-- A file and what it holds; a required file has to be there. -/
  | file (contents : Option Text) (required : Bool)
deriving Repr

/-- The settings that hold when no layer says otherwise, as a tree. -/
def standardTree : Value :=
  .table
    [("tokenizer".toList, .table [("max_group_depth".toList, .number Command.standardLimit)]),
      ("output".toList,
        .table [("leading".toList, .text [' ']), ("separator".toList, .text [','])]),
      ("repl".toList, .table [("prompt".toList, .text "Stitches: ".toList)]),
      ("logging".toList, .table [("level".toList, .text "error".toList)])]

/-- Layer the files over a tree, in order; overrides are passed over.  A byte order mark at the
start of a file is no part of what it holds. -/
def withFiles : List Layer → Value → Except Defect Value
  | [], tree => .ok tree
  | .override _ _ :: rest, tree => withFiles rest tree
  | .file none required :: rest, tree =>
      if required then .error .missingFile else withFiles rest tree
  | .file (some contents) _ :: rest, tree =>
      match Toml.document? (Text.withoutMark contents) with
      | none => .error .badFile
      | some file => withFiles rest (tree.putFile file)

/-- Layer the overrides over a tree, in order; files are passed over. -/
def withOverrides : List Layer → Value → Except Defect Value
  | [], tree => .ok tree
  | .file _ _ :: rest, tree => withOverrides rest tree
  | .override key value :: rest, tree =>
      match Segment.ofKey? key with
      | none => .error (.badKey key)
      | some path => withOverrides rest (value.putAt path tree)

/-- The text that a value spells; lists and tables spell none. -/
def textOf? : Value → Option Text
  | .text characters => some characters
  | .number value => some (Decimal.ofInt value)
  | .float value => some value.text
  | .moment value => some value.text
  | .truth true => some "true".toList
  | .truth false => some "false".toList
  | _ => none

/-- The greatest count that a setting can hold, `2 ^ 64 - 1`. -/
def greatestCount : Nat :=
  18446744073709551615

/-- The count that a text spells: a truth value in words, or digits with or without a plus. -/
def countOfText? (t : Text) : Option Nat :=
  let word := Text.lowered t
  if word ∈ ["true".toList, "on".toList, "yes".toList] then some 1
  else if word ∈ ["false".toList, "off".toList, "no".toList] then some 0
  else
    let digits :=
      match word with
      | '+' :: rest => rest
      | _ => word
    match Decimal.value? digits with
    | none => none
    | some n => if n ≤ greatestCount then some n else none

/-- The count that a value gives: no negative number, and a float as the nearest count. -/
def countOf? : Value → Option Nat
  | .text characters => countOfText? characters
  | .number (.ofNat n) => some n
  | .float value => some (value.toNat greatestCount)
  | .truth value => some value.toNat
  | _ => none

/-- The value of a field of a section: by its name in a table, by its place in a list. -/
def fieldOf? (tree : Value) (group : Text) (place : Nat) (field : Text) : Option Value :=
  match tree.child? group with
  | some (.table entries) => (Value.table entries).child? field
  | some (.list items) => items[place]?
  | _ => none

/-- A field of a section, read as `read` says. -/
def field {α : Type} (read : Value → Option α) (tree : Value) (group : Text) (place : Nat)
    (name : Text) : Except Defect α :=
  match (fieldOf? tree group place name).bind read with
  | none => .error (.badField group name)
  | some value => .ok value

/-- The settings that a tree gives. -/
def ofTree (tree : Value) : Except Defect Settings := do
  let maxGroupDepth ← field countOf? tree "tokenizer".toList 0 "max_group_depth".toList
  let leading ← field textOf? tree "output".toList 0 "leading".toList
  let separator ← field textOf? tree "output".toList 1 "separator".toList
  let prompt ← field textOf? tree "repl".toList 0 "prompt".toList
  let level ← field textOf? tree "logging".toList 0 "level".toList
  return ⟨maxGroupDepth, ⟨leading, separator⟩, prompt, level⟩

/-- Build the settings from layers. -/
def load (layers : List Layer) : Except Defect Settings :=
  match withFiles layers standardTree with
  | .error defect => .error defect
  | .ok tree =>
      match withOverrides layers tree with
      | .error defect => .error defect
      | .ok tree => ofTree tree

end Settings

end CrochetShorthand
