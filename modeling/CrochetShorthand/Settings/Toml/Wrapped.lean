import CrochetShorthand.Settings.Value

/-!
# Moments wrapped in tables

Where a moment has no form of its own it is wrapped in a table, as a text under one agreed key.
A document may use that form as well.  The key of the first entry decides: with the agreed key
the table is the moment that its text quotes, whatever else the table holds, and without it the
table is a table.
-/

namespace CrochetShorthand.Settings.Toml

/-- The key that wraps a moment. -/
def momentKey : Text :=
  "$__toml_private_datetime".toList

/-- The moment that the text under the agreed key quotes. -/
def wrapped? : Value → Option Value
  | .text characters => (Moment.ofText? characters).map .moment
  | _ => none

mutual

/-- The value with a moment for every table that wraps one; `none` when a table with the agreed
key wraps something else. -/
def unwrapped? : Value → Option Value
  | .list items => (unwrappedItems? items).map .list
  | .table ((key, value) :: rest) =>
      if key = momentKey then wrapped? value
      else
        match unwrapped? value, unwrappedEntries? rest with
        | some value, some rest => some (.table ((key, value) :: rest))
        | _, _ => none
  | value => some value

def unwrappedItems? : List Value → Option (List Value)
  | [] => some []
  | value :: rest =>
      match unwrapped? value, unwrappedItems? rest with
      | some value, some rest => some (value :: rest)
      | _, _ => none

def unwrappedEntries? : List (Text × Value) → Option (List (Text × Value))
  | [] => some []
  | (key, value) :: rest =>
      match unwrapped? value, unwrappedEntries? rest with
      | some value, some rest => some ((key, value) :: rest)
      | _, _ => none

end

end CrochetShorthand.Settings.Toml
