import CrochetShorthand.Report
import CrochetShorthand.Settings
import CrochetShorthand.Stage
import CrochetShorthand.Text.Plain

/-!
# The journal

Beside its output a run keeps a journal.  At the level `trace` it names every piece that was
read and what it says, at `debug` every pattern that was laid out and the totals of a line, and at
`warn` every line that failed.

The entries of a line follow the order of the work: a report reads and unfolds piece by
piece, while a stage reads the whole line before it unfolds anything.
-/

namespace CrochetShorthand

/-- How much the journal holds. -/
inductive Level
  | off
  | error
  | warn
  | info
  | debug
  | trace
deriving DecidableEq, Repr

namespace Level

/-- The place of a level among the levels; a higher one holds more. -/
def rank : Level → Nat
  | .off => 0
  | .error => 1
  | .warn => 2
  | .info => 3
  | .debug => 4
  | .trace => 5

/-- The name of a level. -/
def name : Level → Text
  | .off => "OFF".toList
  | .error => "ERROR".toList
  | .warn => "WARN".toList
  | .info => "INFO".toList
  | .debug => "DEBUG".toList
  | .trace => "TRACE".toList

/-- Every level. -/
def all : List Level :=
  [.off, .error, .warn, .info, .debug, .trace]

/-- The level of a name, whatever the case of its letters. -/
def ofName? (name : Text) : Option Level :=
  all.find? fun level => Text.lowered level.name = Text.lowered name

/-- The level of a run: `debug` when it is asked for, otherwise the level that is named, and
`warn` when the name is unknown.  Blanks around the name do not count. -/
def choose (debug : Bool) (name : Text) : Level :=
  if debug then .debug else (ofName? (Text.trim name)).getD .warn

/-- Whether a journal of this level holds the entries of another. -/
def holds (level entry : Level) : Bool :=
  entry.rank ≤ level.rank

end Level

/-- One entry of the journal. -/
structure Entry where
  level : Level
  message : Text
deriving DecidableEq, Repr

namespace Entry

/-- Every line of a message after the first is set in by four blanks. -/
def indented (message : Text) : Text :=
  message.flatMap fun c => if c = '\n' then ['\n', ' ', ' ', ' ', ' '] else [c]

/-- The line of an entry: its level in brackets, five columns wide, and the message. -/
def line (entry : Entry) : Text :=
  let name := entry.level.name
  let columns := name ++ List.replicate (5 - name.length) ' '
  '[' :: columns ++ ']' :: ' ' :: indented entry.message ++ ['\n']

/-- The line of an entry as it is written.  The journal is plain text, and a string that the message
leaves open takes the end of the line with it. -/
def render (entry : Entry) : Text :=
  Text.plain entry.line

/-- Whatever the message holds, the journal is plain text. -/
theorem isPlain_of_mem_render {entry : Entry} {c : Char} (h : c ∈ entry.render) :
    Text.isPlain c = true :=
  Text.isPlain_of_mem_plain h

/-- The line of a plain message is written as it is. -/
theorem render_of_isPlain {entry : Entry} (h : ∀ c ∈ entry.message, Text.isPlain c = true) :
    entry.render = entry.line := by
  have hindented : ∀ c ∈ indented entry.message, Text.isPlain c = true := by
    intro c hc
    obtain ⟨d, hd, hmem⟩ := List.mem_flatMap.1 hc
    split at hmem
    · have hindent : ['\n', ' ', ' ', ' ', ' '].all Text.isPlain = true := by decide
      exact List.all_eq_true.1 hindent c hmem
    · rw [List.mem_singleton.1 hmem]
      exact h d hd
  have hfront : ∀ level : Level, ('[' :: (level.name ++
      List.replicate (5 - level.name.length) ' ') ++ [']', ' ']).all Text.isPlain = true := by
    intro level
    cases level <;> decide
  apply Text.plain_of_isPlain
  intro c hc
  have hparts : entry.line = ('[' :: (entry.level.name ++
      List.replicate (5 - entry.level.name.length) ' ') ++ [']', ' ']) ++
        (indented entry.message ++ ['\n']) := by
    simp [line]
  rw [hparts] at hc
  rcases List.mem_append.1 hc with hlevel | hrest
  · exact List.all_eq_true.1 (hfront entry.level) c hlevel
  · rcases List.mem_append.1 hrest with hmessage | hend
    · exact hindented c hmessage
    · rw [List.mem_singleton.1 hend]
      decide

end Entry

namespace Journal

/-- A record with named fields, as the journal writes one. -/
def recordForm (name : Text) (fields : List (Text × Text)) : Text :=
  let written := fields.map fun field => field.1 ++ ':' :: ' ' :: field.2
  name ++ [' ', '\x7b', ' '] ++ Text.joinWith [',', ' '] written ++ [' ', '\x7d']

def stitchForm : Stitch → Text
  | .chain => "Chain".toList
  | .singleCrochet => "SingleCrochet".toList
  | .increase => "Increase".toList
  | .increaseDecrease => "IncreaseDecrease".toList
  | .decrease => "Decrease".toList
  | .skip => "Skip".toList
  | .back => "Back".toList

def patternForm : Pattern → Text
  | .magicCircle n =>
      recordForm "MagicCircle".toList [("initial_stitch_count".toList, Decimal.ofNat n.toNat)]
  | .magicEllipse n =>
      recordForm "MagicEllipse".toList [("extended_stitch_count".toList, Decimal.ofNat n.toNat)]
  | .bend round depth =>
      recordForm "Bend".toList
        [("round_stitch_count".toList, Decimal.ofNat round.toNat),
          ("depth".toList, Decimal.ofNat depth.toNat)]

mutual

/-- A command as the journal writes it, with the names of its kinds and fields. -/
def commandForm : Command → Text
  | .stitch s => "Stitch(".toList ++ stitchForm s ++ [')']
  | .pattern p => "Pattern(".toList ++ patternForm p ++ [')']
  | .group commands times =>
      "Group(".toList ++
        recordForm "StitchGroup".toList
          [("commands".toList, '[' :: Text.joinWith [',', ' '] (commandForms commands) ++ [']']),
            ("repeat".toList, Decimal.ofNat times.toNat)] ++
        [')']

def commandForms : List Command → List Text
  | [] => []
  | command :: rest => commandForm command :: commandForms rest

end

/-- The entry of a piece that was read. -/
def readEntry (piece : Text) (command : Command) : Entry :=
  ⟨.trace, "tokenized '".toList ++ piece ++ "' as ".toList ++ commandForm command⟩

/-- The entries of pieces read in order, up to and with the first one that fails. -/
def untilFailure (read : Text → Except Fault Command) (entries : Text → List Entry) :
    List Text → List Entry
  | [] => []
  | piece :: rest =>
      match read piece with
      | .error _ => entries piece
      | .ok _ => entries piece ++ untilFailure read entries rest

/-- The entries of reading one piece: those of the pieces in its body, then its own. -/
def pieceEntries (limit levels : Nat) (piece : Text) : List Entry :=
  let own : List Entry :=
    match Command.readPieceAt limit levels piece with
    | .error _ => []
    | .ok command => [readEntry piece command]
  match Command.groupParts? piece, levels with
  | some (body, _), levels + 1 =>
      untilFailure (Command.readPieceAt limit levels) (pieceEntries limit levels)
        (Command.spokenPieces body) ++ own
  | _, _ => own

/-- The entry of a pattern that was laid out. -/
def layoutEntry (pattern : Pattern) (motifs : List Motif) : Entry :=
  ⟨.debug, "laid out ".toList ++ pattern.render ++ " as ".toList ++
    Decimal.ofNat motifs.length ++ " motifs (".toList ++
    Decimal.ofNat (Motif.totalLength motifs) ++ " stitches)".toList⟩

mutual

/-- The entries of unfolding a command, and whether that fails. -/
def layoutEntries : Command → List Entry × Bool
  | .stitch _ => ([], false)
  | .pattern p =>
      match p.layout with
      | .error _ => ([], true)
      | .ok motifs => ([layoutEntry p motifs], false)
  | .group commands times =>
      match layoutEntriesAll commands with
      | (entries, true) => (if times = 0 then ([], false) else (entries, true))
      | ([], false) => ([], false)
      | (entry :: entries, false) =>
          ((List.replicate times.toNat (entry :: entries)).flatten, false)

/-- The entries of unfolding commands in order, up to the first that fails. -/
def layoutEntriesAll : List Command → List Entry × Bool
  | [] => ([], false)
  | command :: rest =>
      match layoutEntries command with
      | (entries, true) => (entries, true)
      | (entries, false) =>
          let later := layoutEntriesAll rest
          (entries ++ later.1, later.2)

end

/-- The entries of working pieces one after another, up to the first that fails. -/
def workEntries (limit : Nat) : List Text → List Entry
  | [] => []
  | piece :: rest =>
      pieceEntries limit limit piece ++
        match Command.readPiece limit piece with
        | .error _ => []
        | .ok command =>
            match layoutEntries command with
            | (entries, true) => entries
            | (entries, false) => entries ++ workEntries limit rest

/-- The entry of a line that was worked to its end. -/
def totalEntry (progress : Progress) : Entry :=
  ⟨.debug, "translated line to ".toList ++ Decimal.ofNat progress.stepCount ++
    " steps, final offset ".toList ++ Decimal.ofInt progress.offset⟩

/-- The entries of working a line for a report. -/
def reportEntries (limit : Nat) (line : Text) : List Entry :=
  workEntries limit (Command.spokenPieces line) ++
    match Progress.start.workLine limit line with
    | (_, some _) => []
    | (progress, none) => [totalEntry progress]

/-- The entries of taking a whole line to a stage. -/
def stageEntries (stage : Stage) (limit : Nat) (line : Text) : List Entry :=
  untilFailure (Command.readPiece limit) (pieceEntries limit limit) (Command.spokenPieces line) ++
    match stage, Command.readLine limit line with
    | .tokens, _ => []
    | _, .error _ => []
    | _, .ok commands => (layoutEntriesAll commands).1

/-- The entry of a line that failed; lines are counted from one. -/
def failureEntry (line : Nat) (fault : Fault) : Entry :=
  ⟨.warn, "line ".toList ++ Decimal.ofNat line ++ " failed (".toList ++ fault.category.name ++
    "): ".toList ++ fault.message⟩

/-- The first entry of a journal that holds `debug` entries. -/
def openingEntry (level : Level) : Entry :=
  let name : Text :=
    match level with
    | .trace => "Trace".toList
    | _ => "Debug".toList
  ⟨.debug, "logger initialized at ".toList ++ name ++ " level".toList⟩

/-- The last entry of a run that came to the end of its lines. -/
def closingEntry : Entry :=
  ⟨.debug, "finished reading lines".toList⟩

/-- The given entries, when the journal holds entries of their level.  They are not even made
otherwise. -/
def keep (level entryLevel : Level) (entries : Unit → List Entry) : List Entry :=
  if level.holds entryLevel then (entries ()).filter fun entry => level.holds entry.level else []

end Journal

end CrochetShorthand
