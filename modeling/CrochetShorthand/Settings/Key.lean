import CrochetShorthand.Settings.Value

/-!
# Keys of settings

A key is a path into a tree of values: names joined by points, each with any number of
indices in brackets after it, such as `output.separator` or `output[1]`.  An index fits in 64
bits, and one below zero counts from the end of the list.
-/

namespace CrochetShorthand.Settings

/-- One step of a path. -/
inductive Segment
  | name (name : Text)
  | index (index : Int)
deriving DecidableEq, Repr

namespace Segment

/-- The characters that a name may hold. -/
def isNameChar (c : Char) : Bool :=
  c.isAlphanum || c == '_' || c == '-' || c == ' '

/-- A name: it is not empty, and is kept in lower case. -/
def ofName? (t : Text) : Option Segment :=
  if t.isEmpty || !t.all isNameChar then none else some (.name (Text.lowered t))

/-- The digits of an index, with a hyphen in front when it is negative. -/
def index? : Text → Option Int
  | '-' :: digits => (Decimal.value? digits).map fun n => -(n : Int)
  | digits => (Decimal.value? digits).map fun n => (n : Int)

/-- Whether a character may stand on either side of an index. -/
def isIndexPadding (c : Char) : Bool :=
  c == ' ' || c == '\t'

/-- What the brackets of an index hold. -/
def ofIndex? (t : Text) : Option Segment :=
  let padded := (t.dropWhile isIndexPadding).reverse
  match index? (padded.dropWhile isIndexPadding).reverse with
  | none => none
  | some value =>
      if -9223372036854775808 ≤ value ∧ value ≤ 9223372036854775807 then some (.index value)
      else none

/-- The indices of a part that has been cut before each opening bracket. -/
def ofBrackets? : List Text → Option (List Segment)
  | [] => some []
  | part :: rest =>
      match part.reverse with
      | ']' :: digits =>
          match ofIndex? digits.reverse, ofBrackets? rest with
          | some segment, some segments => some (segment :: segments)
          | _, _ => none
      | _ => none

/-- The segments of one part of a key, between two points. -/
def ofPart? (part : Text) : Option (List Segment) :=
  match Text.splitAt '[' part with
  | [] => none
  | front :: brackets =>
      match ofName? front, ofBrackets? brackets with
      | some segment, some segments => some (segment :: segments)
      | _, _ => none

/-- The path that a key spells, or `none` when it is no key. -/
def ofKey? (key : Text) : Option (List Segment) :=
  ((Text.splitAt '.' key).mapM ofPart?).map List.flatten

/-- The index counted from the start of a list of the given length. -/
def fromStart (length : Nat) (index : Int) : Nat :=
  if index < 0 then (length + index).toNat else index.toNat

/-- The list padded at its end, or at its start, as far as the index needs to be in it. -/
def widened (items : List Value) (index : Int) : List Value :=
  List.replicate (-(items.length + index)).toNat Value.absent ++ items ++
    List.replicate (index + 1 - items.length).toNat Value.absent

end Segment

namespace Value

/-- The list with the item at an index changed.  What is no list becomes one first. -/
def changeItem (target : Value) (index : Int) (change : Value → Value) : Value :=
  let items := Segment.widened target.items index
  .list (items.modify (Segment.fromStart items.length index) change)

/-- Layer a value over what the target has at the end of a path. -/
def putAt (value : Value) : List Segment → Value → Value
  | [], target => target
  | [.name key], target => target.put key value
  | [.index i], target => target.changeItem i fun _ => value
  | .name key :: path, target =>
      target.setChild key (putAt value path ((target.child? key).getD .absent))
  | .index i :: path, target => target.changeItem i (putAt value path)

/-- Layer a file's tree over a target.  A key of its outermost table that spells a path is
followed; any other key is taken as it is. -/
def putFile (target file : Value) : Value :=
  file.entries.foldl
    (fun tree entry =>
      match Segment.ofKey? entry.1 with
      | some path => putAt entry.2 path tree
      | none => tree.put (lowerKey entry.1) entry.2)
    target

end Value

end CrochetShorthand.Settings
