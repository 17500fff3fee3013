import CrochetShorthand.Number.Binary64
import CrochetShorthand.Settings.Moment

/-!
# Settings as values

Before settings have a meaning they are a tree of values, as a file or an override gives
them.  Trees are layered: a table merges into the table below it, and any other value takes
the place of what was there.  The keys of tables are kept in lower case, so that `Output` and
`output` are one key.
-/

namespace CrochetShorthand.Settings

/-- A value that a file or an override gives. -/
inductive Value
  /-- The padding of a list that grew by more than its end. -/
  | absent
  | text (characters : Text)
  | number (value : Int)
  | float (value : Binary64)
  | truth (value : Bool)
  | moment (value : Moment)
  | list (items : List Value)
  | table (entries : List (Text × Value))
deriving Repr

namespace Value

/-- The entries of a table; what is no table has none. -/
def entries : Value → List (Text × Value)
  | .table entries => entries
  | _ => []

/-- The items of a list; what is no list has none. -/
def items : Value → List Value
  | .list items => items
  | _ => []

/-- The value under a key of a table. -/
def child? (value : Value) (key : Text) : Option Value :=
  (value.entries.find? fun entry => entry.1 = key).map Prod.snd

/-- The entries with one more, in the place of an entry with the same key if there is one. -/
def setEntry (key : Text) (value : Value) : List (Text × Value) → List (Text × Value)
  | [] => [(key, value)]
  | entry :: rest =>
      if entry.1 = key then (key, value) :: rest else entry :: setEntry key value rest

/-- The table with a value under a key.  What is no table becomes one first. -/
def setChild (target : Value) (key : Text) (value : Value) : Value :=
  .table (setEntry key value target.entries)

/-- A key in lower case.  Beyond the ASCII letters only the Kelvin sign has one of them as its
lower case, and every key with a meaning is of ASCII letters. -/
def lowerKey (key : Text) : Text :=
  key.map fun c => if c = '\u212A' then 'k' else c.toLower

mutual

/-- Layer a value over what the target has under a key. -/
def put (target : Value) (key : Text) : Value → Value
  | .table incoming =>
      target.setChild key (putAll ((target.child? key).getD (.table [])) incoming)
  | value => target.setChild key value

/-- Layer entries over a target, each under its key in lower case. -/
def putAll (target : Value) : List (Text × Value) → Value
  | [] => target
  | (key, value) :: rest => putAll (put target (lowerKey key) value) rest

end

end Value

end CrochetShorthand.Settings
