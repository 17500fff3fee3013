import CrochetShorthand.Settings.Toml.Lexical
import CrochetShorthand.Settings.Toml.Wrapped

/-!
# TOML documents

A document is a sequence of key-value pairs and table headers.  While it is read, every table
remembers how it came to be, because that decides what may still be added to it: a table is
defined once, a table with a header of its own is not extended by a dotted key, and a value is
never extended.  Values are read down to a bounded depth, and the reader of what is one level
deeper is handed to the readers of lists and of tables in braces.
-/

namespace CrochetShorthand.Settings.Toml

/-- How a table came to be. -/
inductive Origin
  /-- On the way to the table of a header. -/
  | implied
  /-- On the way to the key of a pair. -/
  | dotted
  /-- By a header of its own. -/
  | header
deriving DecidableEq, Repr

/-- A part of a document under way. -/
inductive Node
  | leaf (value : Value)
  | table (origin : Origin) (entries : List (Text × Node))
  /-- A list of tables with headers of their own; the last one may still grow. -/
  | tables (earlier : List Node) (last : Node)
deriving Repr

namespace Node

/-- The node under a key. -/
def find? (key : Text) (entries : List (Text × Node)) : Option Node :=
  (entries.find? fun entry => entry.1 = key).map Prod.snd

/-- The entries with a node under a key, in the place of the node that was there. -/
def replace (key : Text) (node : Node) : List (Text × Node) → List (Text × Node)
  | [] => [(key, node)]
  | entry :: rest => if entry.1 = key then (key, node) :: rest else entry :: replace key node rest

/-- Change the table at the end of a path.  Tables that are missing on the way come to be with
the given origin; of a list of tables the last one is entered.  A dotted key enters no table
that has a header. -/
def within (origin : Origin) (change : Node → Option Node) : List Text → Node → Option Node
  | [], node => change node
  | key :: path, .table kind entries =>
      match find? key entries with
      | none =>
          (within origin change path (.table origin [])).map fun node =>
            .table kind (replace key node entries)
      | some (.leaf _) => none
      | some (.table childKind children) =>
          if origin = .dotted ∧ childKind = .header then none
          else
            (within origin change path (.table childKind children)).map fun node =>
              .table kind (replace key node entries)
      | some (.tables earlier last) =>
          (within origin change path last).map fun node =>
            .table kind (replace key (.tables earlier node) entries)
  | _ :: _, _ => none

/-- Open the table of a header under a key.  A table that was only implied is taken over, and
takes its place after the entries that are there. -/
def open? (key : Text) : Node → Option Node
  | .table kind entries =>
      match find? key entries with
      | none => some (.table kind (replace key (.table .header []) entries))
      | some (.table .implied children) =>
          let others := entries.filter fun entry => entry.1 ≠ key
          some (.table kind (others ++ [(key, .table .header children)]))
      | some _ => none
  | _ => none

/-- Open one more table of the list of tables under a key. -/
def openItem? (key : Text) : Node → Option Node
  | .table kind entries =>
      match find? key entries with
      | none => some (.table kind (replace key (.tables [] (.table .header [])) entries))
      | some (.tables earlier last) =>
          some (.table kind (replace key (.tables (earlier ++ [last]) (.table .header [])) entries))
      | some _ => none
  | _ => none

/-- Add a pair to a table, which came to be by a dotted key if and only if the pair's key has
dots.  A key is used once. -/
def add? (dotted : Bool) (key : Text) (value : Value) : Node → Option Node
  | .table kind entries =>
      if decide (kind = .dotted) != dotted then none
      else if (find? key entries).isSome then none
      else some (.table kind (replace key (.leaf value) entries))
  | _ => none

/-- Add a pair under the table at the end of `current`. -/
def define? (current path : List Text) (value : Value) (root : Node) : Option Node :=
  match path.getLast? with
  | none => none
  | some key =>
      within .implied (within .dotted (add? (1 < path.length) key value) path.dropLast) current root

mutual

/-- The value of a finished part of a document. -/
def toValue : Node → Value
  | .leaf value => value
  | .table _ entries => .table (toEntries entries)
  | .tables earlier last => .list (toValues earlier ++ [toValue last])

def toValues : List Node → List Value
  | [] => []
  | node :: rest => toValue node :: toValues rest

def toEntries : List (Text × Node) → List (Text × Value)
  | [] => []
  | (key, node) :: rest => (key, toValue node) :: toEntries rest

end

/-- A table without entries. -/
def empty : Node :=
  .table .header []

end Node

/-- Whether a character may belong to a bare value. -/
def isBareChar (c : Char) : Bool :=
  c.isAlphanum || c == '+' || c == '-' || c == '.' || c == '_'

/-- A value that holds no others. -/
def scalar? (t : Text) : Option (Value × Text) :=
  match t with
  | '"' :: _ => (string? t).map fun found => (.text found.1, found.2)
  | '\'' :: _ => (string? t).map fun found => (.text found.1, found.2)
  | _ =>
      match Moment.startOf? .clock t with
      | some (moment, rest) => some (.moment moment, rest)
      | none => (bare? (t.takeWhile isBareChar)).map fun value => (value, t.dropWhile isBareChar)

/-- The items of a list up to its closing bracket, each read by `item?`; `taken` holds those
before, the latest first. -/
def items? (item? : Text → Option (Value × Text)) (taken : List Value) :
    Nat → Text → Option (Value × Text)
  | 0, _ => none
  | fuel + 1, t =>
      match skipFiller (t.length + 1) t with
      | ']' :: rest => some (.list taken.reverse, rest)
      | start =>
          match item? start with
          | none => none
          | some (value, rest) =>
              match skipFiller (rest.length + 1) rest with
              | ',' :: after => items? item? (value :: taken) fuel after
              | ']' :: after => some (.list (value :: taken).reverse, after)
              | _ => none

/-- The pairs of a table in braces up to the closing brace, on one line, with each value read
by `item?`. -/
def pairs? (item? : Text → Option (Value × Text)) (node : Node) :
    Nat → Text → Option (Value × Text)
  | 0, _ => none
  | fuel + 1, t =>
      match key? t with
      | some (path, '=' :: rest) =>
          match item? (skipSpaces rest) with
          | none => none
          | some (value, after) =>
              match node.define? [] path value, skipSpaces after with
              | some grown, ',' :: next => pairs? item? grown fuel next
              | some grown, '\x7d' :: next => some (grown.toValue, next)
              | _, _ => none
      | _ => none

/-- A value of any kind, with lists and tables in braces at most `depth` levels deep. -/
def value? : Nat → Text → Option (Value × Text)
  | 0, t => scalar? t
  | depth + 1, t =>
      match t with
      | '[' :: rest => items? (value? depth) [] (rest.length + 1) rest
      | '\x7b' :: rest =>
          match skipSpaces rest with
          | '\x7d' :: after => some (.table [], after)
          | _ => pairs? (value? depth) Node.empty (rest.length + 1) rest
      | _ => scalar? t

/-- The document so far, and the path of the table that pairs are added to. -/
structure Draft where
  root : Node
  current : List Text
deriving Repr

namespace Draft

/-- Change the table that a header names by its last key, and add the next pairs below it. -/
def enter? (draft : Draft) (path : List Text) (change : Text → Node → Option Node) :
    Option Draft :=
  match path.getLast? with
  | none => none
  | some key =>
      (Node.within .implied (change key) path.dropLast draft.root).map fun root => ⟨root, path⟩

/-- Read one header or pair, up to the end of its line. -/
def line? (draft : Draft) (t : Text) : Option (Draft × Text) :=
  match t with
  | '[' :: '[' :: rest =>
      match key? rest with
      | some (path, ']' :: ']' :: after) =>
          match draft.enter? path Node.openItem?, endOfLine? after with
          | some entered, some next => some (entered, next)
          | _, _ => none
      | _ => none
  | '[' :: rest =>
      match key? rest with
      | some (path, ']' :: after) =>
          match draft.enter? path Node.open?, endOfLine? after with
          | some entered, some next => some (entered, next)
          | _, _ => none
      | _ => none
  | _ =>
      match key? t with
      | some (path, '=' :: rest) =>
          match value? deepest (skipSpaces rest) with
          | none => none
          | some (value, after) =>
              match draft.root.define? draft.current path value, endOfLine? after with
              | some root, some next => some (⟨root, draft.current⟩, next)
              | _, _ => none
      | _ => none

/-- Read headers and pairs up to the end of the document. -/
def lines? : Nat → Draft → Text → Option Draft
  | 0, _, _ => none
  | fuel + 1, draft, t =>
      match skipFiller (t.length + 1) t with
      | [] => some draft
      | start =>
          match draft.line? start with
          | none => none
          | some (grown, rest) => lines? fuel grown rest

end Draft

/-- The table that a document holds, or `none` when it is not well formed.  A byte order mark
may stand in front of it. -/
def document? (t : Text) : Option Value :=
  let body := Text.withoutMark t
  match Draft.lines? (body.length + 1) ⟨Node.empty, []⟩ body with
  | none => none
  | some draft =>
      match unwrapped? draft.root.toValue with
      | some (.table entries) => some (.table entries)
      | _ => none

end CrochetShorthand.Settings.Toml
