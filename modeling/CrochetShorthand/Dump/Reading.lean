import CrochetShorthand.Dump.Json
import CrochetShorthand.RunLength.Reading

/-!
# JSON dumps read back

A JSON text is read lexeme by lexeme.  The containers that are open are held in a list, the
innermost first, so that the reader takes any depth of nesting (`Json.Reader`).

JSON has no tags: a value under a tag is an object with one member.  So what is read is not a dump
but a JSON value, and a command, a stitch or a step is taken from it by the names of the tags and
fields.
-/

namespace CrochetShorthand

/-- A JSON value, as far as dumps need it. -/
inductive Json
  | string (characters : Text)
  | number (value : Int)
  | array (items : List Json)
  /-- Named members, in the order in which they are written. -/
  | object (members : List (Text × Json))
deriving Repr

/-! ## Lexemes -/

namespace Decimal

/-- A number takes at least one character. -/
theorem leadingNat?_length_lt {t : Text} {found : Nat × Text} (h : leadingNat? t = some found) :
    found.2.length < t.length := by
  obtain ⟨n, hvalue, rfl⟩ := Option.map_eq_some_iff.1 h
  have hdigits : t.takeWhile Char.isDigit ≠ [] := by
    intro hnil
    rw [hnil] at hvalue
    contradiction
  have hpos := List.length_pos_iff.2 hdigits
  have hsplit : t.takeWhile Char.isDigit ++ t.dropWhile Char.isDigit = t :=
    List.takeWhile_append_dropWhile
  have hlength := congrArg List.length hsplit
  rw [List.length_append] at hlength
  show (t.dropWhile Char.isDigit).length < t.length
  omega

theorem leadingInt?_length_lt {t : Text} {found : Int × Text} (h : leadingInt? t = some found) :
    found.2.length < t.length := by
  unfold leadingInt? at h
  split at h
  · obtain ⟨number, hnumber, rfl⟩ := Option.map_eq_some_iff.1 h
    have hlt := leadingNat?_length_lt hnumber
    rw [List.length_cons]
    exact Nat.lt_succ_of_lt hlt
  · obtain ⟨number, hnumber, rfl⟩ := Option.map_eq_some_iff.1 h
    exact leadingNat?_length_lt hnumber

end Decimal

namespace Json

/-- A mark, a string or a number of a JSON text. -/
inductive Lexeme
  | openArray
  | closeArray
  | openObject
  | closeObject
  | comma
  | colon
  | string (characters : Text)
  | number (value : Int)
deriving DecidableEq, Repr

/-- The lexeme at the start of a text, and the text behind it.  A string ends at the next quote,
since dumps have no escapes. -/
def lexeme? : Text → Option (Lexeme × Text)
  | '[' :: rest => some (.openArray, rest)
  | ']' :: rest => some (.closeArray, rest)
  | '\x7b' :: rest => some (.openObject, rest)
  | '\x7d' :: rest => some (.closeObject, rest)
  | ',' :: rest => some (.comma, rest)
  | ':' :: rest => some (.colon, rest)
  | '"' :: rest =>
      match rest.dropWhile (· != '"') with
      | [] => none
      | _ :: behind => some (.string (rest.takeWhile (· != '"')), behind)
  | t => (Decimal.leadingInt? t).map fun found => (.number found.1, found.2)

/-- A lexeme takes at least one character. -/
theorem lexeme?_length_lt {t rest : Text} {lexeme : Lexeme} (h : lexeme? t = some (lexeme, rest)) :
    rest.length < t.length := by
  unfold lexeme? at h
  split at h
  case h_7 inside =>
    split at h
    · contradiction
    · rename_i behind hdrop
      obtain ⟨-, rfl⟩ := Prod.mk.inj (Option.some.inj h)
      have hle := (List.dropWhile_sublist (· != '"') (l := inside)).length_le
      rw [hdrop, List.length_cons] at hle
      rw [List.length_cons]
      omega
  case h_8 =>
    obtain ⟨found, hfound, hlexeme⟩ := Option.map_eq_some_iff.1 h
    obtain ⟨-, rfl⟩ := Prod.mk.inj hlexeme
    exact Decimal.leadingInt?_length_lt hfound
  all_goals
    obtain ⟨-, rfl⟩ := Prod.mk.inj (Option.some.inj h)
    exact Nat.lt_succ_self _

/-! ## Values -/

/-- A container that is open, with what is read of it, the latest first. -/
inductive Opened
  | array (latest : List Json)
  /-- The value of the member `name` is not read yet. -/
  | object (latest : List (Text × Json)) (name : Text)
deriving Repr

/-- What a reader expects, inside the containers that are open. -/
inductive Reader
  /-- A value, or the end of an array that has no items. -/
  | value (opened : List Opened)
  /-- The name of a member, or the end of an object that has no members. -/
  | name (latest : List (Text × Json)) (opened : List Opened)
  /-- The colon behind the name of a member. -/
  | colon (latest : List (Text × Json)) (name : Text) (opened : List Opened)
  /-- The value is read; what comes is a comma or the end of the innermost container. -/
  | behind (value : Json) (opened : List Opened)
deriving Repr

namespace Reader

/-- The reader after one more lexeme; `none` when the lexeme does not fit. -/
def next? : Reader → Lexeme → Option Reader
  | .value opened, .string characters => some (.behind (.string characters) opened)
  | .value opened, .number n => some (.behind (.number n) opened)
  | .value opened, .openArray => some (.value (.array [] :: opened))
  | .value (.array [] :: opened), .closeArray => some (.behind (.array []) opened)
  | .value opened, .openObject => some (.name [] opened)
  | .name [] opened, .closeObject => some (.behind (.object []) opened)
  | .name latest opened, .string field => some (.colon latest field opened)
  | .colon latest field opened, .colon => some (.value (.object latest field :: opened))
  | .behind item (.array latest :: opened), .comma =>
      some (.value (.array (item :: latest) :: opened))
  | .behind item (.array latest :: opened), .closeArray =>
      some (.behind (.array (item :: latest).reverse) opened)
  | .behind item (.object latest field :: opened), .comma =>
      some (.name ((field, item) :: latest) opened)
  | .behind item (.object latest field :: opened), .closeObject =>
      some (.behind (.object ((field, item) :: latest).reverse) opened)
  | _, _ => none

/-- The value that is read, when no container is open around it. -/
def result? : Reader → Option Json
  | .behind json [] => some json
  | _ => none

/-- Read on until the value is complete.  The text behind it is left. -/
def run (reader : Reader) (t : Text) : Option (Json × Text) :=
  match reader.result? with
  | some json => some (json, t)
  | none =>
    match _h : lexeme? t with
    | none => none
    | some (lexeme, rest) =>
      match reader.next? lexeme with
      | none => none
      | some next => run next rest
termination_by t.length
decreasing_by exact lexeme?_length_lt _h

end Reader

/-- The value on a line, which ends with a line feed. -/
def ofLine? (line : Text) : Option Json :=
  match Reader.run (.value []) line with
  | some (value, ['\n']) => some value
  | _ => none

/-! ## What was dumped -/

/-- The characters of a string. -/
def text? : Json → Option Text
  | .string characters => some characters
  | _ => none

/-- A number that is a word of the machine. -/
def count? : Json → Option UInt32
  | .number value => if 0 ≤ value ∧ value < UInt32.size then some (.ofNat value.toNat) else none
  | _ => none

/-- The items of an array, each read by itself. -/
def items? {α : Type} (read? : Json → Option α) : Json → Option (List α)
  | .array items => items.mapM read?
  | _ => none

/-- The items on a line. -/
def itemsOfLine? {α : Type} (read? : Json → Option α) (line : Text) : Option (List α) :=
  (ofLine? line).bind (items? read?)

end Json

/-- The stitch of a name. -/
def Stitch.ofJson? (json : Json) : Option Stitch :=
  json.text?.bind fun name => Stitch.all.find? fun stitch => stitch.name = name

def Pattern.ofJson? : Json → Option Pattern
  | .object [(tag, .object [(field, value)])] =>
      if tag = "magic_circle".toList ∧ field = "initial_stitch_count".toList then
        value.count?.map .magicCircle
      else if tag = "magic_ellipse".toList ∧ field = "extended_stitch_count".toList then
        value.count?.map .magicEllipse
      else none
  | .object [(tag, .object [(first, round), (second, depth)])] =>
      if tag = "bend".toList ∧ first = "round_stitch_count".toList ∧ second = "depth".toList then
        match round.count?, depth.count? with
        | some round, some depth => some (.bend round depth)
        | _, _ => none
      else none
  | _ => none

namespace Command

mutual

/-- The command under the tag of its kind. -/
def ofJson? : Json → Option Command
  | .object [(tag, payload)] =>
      if tag = "stitch".toList then (Stitch.ofJson? payload).map .stitch
      else if tag = "pattern".toList then (Pattern.ofJson? payload).map .pattern
      else if tag = "group".toList then ofGroupJson? payload
      else none
  | _ => none

/-- The group of two fields. -/
def ofGroupJson? : Json → Option Command
  | .object [(first, .array items), (second, times)] =>
      if first = "commands".toList ∧ second = "repeat".toList then
        match ofJsons? items, times.count? with
        | some commands, some times => some (.group commands times)
        | _, _ => none
      else none
  | _ => none

def ofJsons? : List Json → Option (List Command)
  | [] => some []
  | json :: rest =>
      match ofJson? json, ofJsons? rest with
      | some command, some commands => some (command :: commands)
      | _, _ => none

end

end Command

def Step.ofJson? : Json → Option Step
  | .string name => if name = "chain".toList then some .chain else none
  | .object [(tag, .object [(field, .number ago)])] =>
      if tag = "sc_n".toList ∧ field = "stitch_ago".toList then some (.sc ago) else none
  | .object [(tag, .object [(first, .number ago), (second, .number other)])] =>
      if tag = "sc_m_n".toList ∧ first = "stitch_ago_1".toList ∧ second = "stitch_ago_2".toList then
        some (.scTwo ago other)
      else none
  | _ => none

end CrochetShorthand
