import CrochetShorthand.Dump.Json
import CrochetShorthand.Dump.Yaml
import CrochetShorthand.Journal

/-!
# Sessions

A session takes one line after another.  Display tokens as text are written as they are
completed, so a line that fails still shows those before the fault; every other output of a
line is written whole, and a line that fails writes nothing.

After a line that failed the session stops, unless it is told to keep going.  Two things stop
it in any case: a line that is no text, and a dump that the format cannot hold.
-/

namespace CrochetShorthand

/-- How output is written. -/
inductive Format
  | text
  | json
  | yaml
deriving DecidableEq, Repr

/-- What a session is told to do. -/
structure Session where
  stage : Stage
  format : Format
  keepGoing : Bool
  settings : Settings
  level : Level
deriving DecidableEq, Repr

/-- What a session says beside its output. -/
inductive Notice
  | error (message : Text)
  | entry (entry : Entry)
deriving DecidableEq, Repr

/-- The lines of a notice. -/
def Notice.render : Notice → Text
  | .error message => "Error: ".toList ++ message ++ ['\n']
  | .entry e => e.render

/-- What came of a session. -/
structure Transcript where
  output : Text
  notices : List Notice
  /-- Whether every line was worked. -/
  ok : Bool
deriving DecidableEq, Repr

/-- What came of one line. -/
inductive LineOutcome
  | done (output : Text)
  | failed (output : Text) (fault : Fault)
  /-- The session cannot go on. -/
  | stuck (message : Text)
deriving DecidableEq, Repr

namespace Session

/-- The items of a line at a stage: the text of each, and what is dumped of it. -/
def items (stage : Stage) (limit : Nat) (line : Text) : Except Fault (List (Text × Dump)) :=
  match stage with
  | .display =>
      (Stage.displaysOf limit line).map fun displays => displays.map fun d => (d, .word d)
  | .tokens =>
      (Stage.tokensOf limit line).map fun commands =>
        commands.map fun c => (c.render, Dump.ofCommand c)
  | .stitches =>
      (Stage.stitchesOf limit line).map fun stitches =>
        stitches.map fun s => (s.keyword, Dump.ofStitch s)
  | .steps =>
      (Stage.stepsOf limit line).map fun steps => steps.map fun s => (s.render, Dump.ofStep s)

/-- The message for a dump that has a tag directly under a tag. -/
def nestedTagMessage : Text :=
  "serializing nested enums in YAML is not supported yet".toList

/-- The message for a line that is no text. -/
def noTextMessage : Text :=
  "stream did not contain valid UTF-8".toList

/-- The output of the items of a line. -/
def dump (format : Format) (spacing : Spacing) (items : List (Text × Dump)) : LineOutcome :=
  match format with
  | .text => .done (spacing.join (items.map Prod.fst) ++ ['\n'])
  | .json => .done (Dump.json (.list (items.map Prod.snd)) ++ ['\n'])
  | .yaml =>
      match Dump.yamlDocument? (.list (items.map Prod.snd)) with
      | none => .stuck nestedTagMessage
      | some document => .done document

/-- Display tokens as they are written one by one: the leading text before the first, the
separator before every other. -/
def streamed (spacing : Spacing) : List Text → Text
  | [] => []
  | first :: rest => spacing.leading ++ first ++ rest.flatMap (spacing.separator ++ ·)

/-- Whether display tokens are written one by one. -/
def streams (session : Session) : Bool :=
  session.stage = .display && session.format = .text

/-- Work one line. -/
def work (session : Session) (line : Text) : LineOutcome :=
  let limit := session.settings.maxGroupDepth
  let spacing := session.settings.spacing
  if session.streams then
    let report := Report.ofLine limit line
    let output := streamed spacing report.displays ++ ['\n']
    match report.fault with
    | none => .done output
    | some fault => .failed output fault
  else
    match items session.stage limit line with
    | .error fault => .failed [] fault
    | .ok items => dump session.format spacing items

/-- The journal entries of the work on one line. -/
def lineEntries (session : Session) (line : Text) : List Notice :=
  let limit := session.settings.maxGroupDepth
  let entries :=
    Journal.keep session.level .debug fun _ =>
      if session.streams then Journal.reportEntries limit line
      else Journal.stageEntries session.stage limit line
  entries.map Notice.entry

/-- One entry, when the journal of the session holds it. -/
def note (session : Session) (entry : Entry) : List Notice :=
  (Journal.keep session.level entry.level fun _ => [entry]).map Notice.entry

/-- Put the output and the notices of one line before those of the lines after it. -/
def before (output : Text) (notices : List Notice) (later : Transcript) : Transcript :=
  ⟨output ++ later.output, notices ++ later.notices, later.ok⟩

/-- Work lines that are counted from `number` on; `none` is a line that is no text. -/
def runFrom (session : Session) (number : Nat) : List (Option Text) → Transcript
  | [] => ⟨[], session.note Journal.closingEntry, true⟩
  | none :: _ => ⟨[], [.error noTextMessage], false⟩
  | some line :: rest =>
      let entries := session.lineEntries line
      match session.work line with
      | .stuck message => ⟨[], entries ++ [.error message], false⟩
      | .done output => before output entries (runFrom session (number + 1) rest)
      | .failed output fault =>
          let notices :=
            entries ++ .error fault.message :: session.note (Journal.failureEntry number fault)
          if session.keepGoing then
            let later := before output notices (runFrom session (number + 1) rest)
            ⟨later.output, later.notices, false⟩
          else ⟨output, notices, false⟩

/-- Work all lines. -/
def run (session : Session) (lines : List (Option Text)) : Transcript :=
  before [] (session.note (Journal.openingEntry session.level)) (session.runFrom 1 lines)

end Session

end CrochetShorthand
