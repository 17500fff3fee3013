import CrochetShorthand.Session

/-!
# The command line

Arguments are read from left to right.  An option takes its value from the same argument or
from the next one, each option is given at most once, and everything after `--` is a line to
work.  Asking for the version or for help ends the reading of arguments at that point.

Without lines among the arguments, the lines are those of standard input.  `perform` is the
whole program as a function of what it is given: the request, the contents of the settings file and
the bytes of standard input.
-/

namespace CrochetShorthand

/-- What the arguments ask for, as far as they say. -/
structure Options where
  lines : List Text
  config : Option Text
  separator : Option Text
  stage : Option Stage
  format : Option Format
  debug : Bool
  keepGoing : Bool
deriving DecidableEq, Repr

namespace CommandLine

/-- No argument read yet. -/
def noOptions : Options :=
  ⟨[], none, none, none, none, false, false⟩

/-- The options that take a value. -/
inductive ValueOption
  | config
  | separator
  | stage
  | format
deriving DecidableEq, Repr

/-- What an argument may name. -/
inductive Name
  | value (option : ValueOption)
  | debug
  | keepGoing
  | version
  | help
deriving DecidableEq, Repr

/-- What is wrong with the arguments. -/
inductive Misuse
  | unknownOption (argument : Text)
  | missingValue (option : ValueOption)
  | badValue (option : ValueOption) (value : Text)
  /-- An option, or a flag, given twice. -/
  | repeated (argument : Name)
  /-- A flag that is given a value. -/
  | unexpectedValue (flag : Name)
deriving DecidableEq, Repr

/-- What the arguments ask for. -/
inductive Request
  | work (options : Options)
  | version
  | help
deriving DecidableEq, Repr

/-- The name that is written out after two hyphens. -/
def longName? (t : Text) : Option Name :=
  if t = "config".toList then some (.value .config)
  else if t = "separator".toList then some (.value .separator)
  else if t = "stage".toList then some (.value .stage)
  else if t = "format".toList then some (.value .format)
  else if t = "debug".toList then some .debug
  else if t = "keep-going".toList then some .keepGoing
  else if t = "version".toList then some .version
  else if t = "help".toList then some .help
  else none

/-- The name that has a letter of its own after one hyphen. -/
def shortName? : Char → Option Name
  | 'c' => some (.value .config)
  | 's' => some (.value .separator)
  | 'f' => some (.value .format)
  | 'V' => some .version
  | 'h' => some .help
  | _ => none

/-- The stage of a name. -/
def stageOf? (t : Text) : Option Stage :=
  if t = "display".toList then some .display
  else if t = "tokens".toList then some .tokens
  else if t = "stitches".toList then some .stitches
  else if t = "steps".toList then some .steps
  else none

/-- The format of a name. -/
def formatOf? (t : Text) : Option Format :=
  if t = "text".toList then some .text
  else if t = "json".toList then some .json
  else if t = "yaml".toList then some .yaml
  else none

/-- Give an option its value. -/
def assign (options : Options) (option : ValueOption) (value : Text) : Except Misuse Options :=
  match option with
  | .config =>
      if options.config.isSome then .error (.repeated (.value option))
      else .ok { options with config := some value }
  | .separator =>
      if options.separator.isSome then .error (.repeated (.value option))
      else .ok { options with separator := some value }
  | .stage =>
      if options.stage.isSome then .error (.repeated (.value option))
      else
        match stageOf? value with
        | none => .error (.badValue option value)
        | some stage => .ok { options with stage := some stage }
  | .format =>
      if options.format.isSome then .error (.repeated (.value option))
      else
        match formatOf? value with
        | none => .error (.badValue option value)
        | some format => .ok { options with format := some format }

/-- What one argument, or one letter of it, comes to. -/
inductive Reading
  | next (options : Options)
  /-- The next argument is the value of an option. -/
  | awaiting (options : Options) (option : ValueOption)
  | answer (request : Request)
deriving DecidableEq, Repr

/-- Read a name, with the value that is attached to it if there is one. -/
def readName (options : Options) (name : Name) (attached : Option Text) :
    Except Misuse Reading :=
  match name, attached with
  | .value option, none => .ok (.awaiting options option)
  | .value option, some value => (assign options option value).map .next
  | .debug, none =>
      if options.debug then .error (.repeated name)
      else .ok (.next { options with debug := true })
  | .keepGoing, none =>
      if options.keepGoing then .error (.repeated name)
      else .ok (.next { options with keepGoing := true })
  | .version, none => .ok (.answer .version)
  | .help, none => .ok (.answer .help)
  | flag, some _ => .error (.unexpectedValue flag)

/-- Read an argument after its two hyphens: a name, and a value after an equals sign. -/
def readLong (options : Options) (t : Text) : Except Misuse Reading :=
  let name := t.takeWhile (· != '=')
  let attached :=
    match t.dropWhile (· != '=') with
    | [] => none
    | _ :: value => some value
  match longName? name with
  | none => .error (.unknownOption t)
  | some name => readName options name attached

/-- The value after the letter of an option: what is left of the argument, without an equals
sign in front. -/
def attachedValue : Text → Option Text
  | [] => none
  | '=' :: value => some value
  | value => some value

/-- Read an argument after its hyphen.  The first letter decides: no letter that has a meaning
lets another one follow. -/
def readShort (options : Options) : Text → Except Misuse Reading
  | [] => .ok (.next { options with lines := options.lines ++ [['-']] })
  | letter :: rest =>
      match shortName? letter with
      | none => .error (.unknownOption (letter :: rest))
      | some (.value option) => readName options (.value option) (attachedValue rest)
      | some name => readName options name none

/-- Read the arguments that follow, when none of them belongs to an option before them. -/
def readArguments (options : Options) : List Text → Except Misuse Request
  | [] => .ok (.work options)
  | ['-', '-'] :: rest => .ok (.work { options with lines := options.lines ++ rest })
  | argument :: rest =>
      let read :=
        match argument with
        | '-' :: '-' :: name => readLong options name
        | '-' :: letters => readShort options letters
        | line => .ok (.next { options with lines := options.lines ++ [line] })
      match read with
      | .error misuse => .error misuse
      | .ok (.answer request) => .ok request
      | .ok (.next options) => readArguments options rest
      | .ok (.awaiting options option) =>
          match rest with
          | [] => .error (.missingValue option)
          | value :: rest =>
              match value with
              | '-' :: _ :: _ => .error (.missingValue option)
              | _ =>
                  match assign options option value with
                  | .error misuse => .error misuse
                  | .ok options => readArguments options rest

/-- What a list of arguments asks for. -/
def read (arguments : List Text) : Except Misuse Request :=
  readArguments noOptions arguments

end CommandLine

namespace Options

/-- The layers of settings that the arguments name.  `contents` is what the settings file holds, if
it is there. -/
def layers (options : Options) (contents : Option Text) : List Settings.Layer :=
  let file : List Settings.Layer :=
    match options.config with
    | none => []
    | some _ => [.file contents true]
  let separator : List Settings.Layer :=
    match options.separator with
    | none => []
    | some separator => [.override "output.separator".toList (.text separator)]
  file ++ separator

/-- The session that the arguments and the settings ask for. -/
def session (options : Options) (settings : Settings) : Session :=
  ⟨options.stage.getD .display, options.format.getD .text, options.keepGoing, settings,
    Level.choose options.debug settings.level⟩

end Options

/-- The bytes in parts: one part before each line feed, and the part after the last. -/
def splitBytes : List UInt8 → List (List UInt8)
  | [] => [[]]
  | byte :: rest =>
      if byte = 0x0A then [] :: splitBytes rest
      else
        match splitBytes rest with
        | [] => [[byte]]
        | part :: parts => (byte :: part) :: parts

/-- The bytes without a carriage return at their end. -/
def withoutReturn (bytes : List UInt8) : List UInt8 :=
  if bytes.getLast? = some 0x0D then bytes.dropLast else bytes

/-- The text that bytes encode in UTF-8. -/
def decodeBytes? (bytes : List UInt8) : Option Text :=
  (String.fromUTF8? ⟨bytes.toArray⟩).map String.toList

/-- The lines of standard input.  A line ends with a line feed, or with a carriage return and
a line feed; what comes after the last line feed is a line unless it is empty.  A line that is no
text is `none`. -/
def inputLines (bytes : List UInt8) : List (Option Text) :=
  let parts := splitBytes bytes
  let ended := parts.dropLast.map fun part => decodeBytes? (withoutReturn part)
  match parts.getLast? with
  | none => ended
  | some [] => ended
  | some last => ended ++ [decodeBytes? last]

/-- What came of running the program. -/
inductive Outcome
  | misused (misuse : CommandLine.Misuse)
  | version
  | help
  | unsettled (defect : Settings.Defect)
  | worked (transcript : Transcript)
deriving Repr

namespace Outcome

/-- The exit code: `2` when the arguments are wrong, `1` when anything else failed. -/
def exitCode : Outcome → UInt32
  | .misused _ => 2
  | .version => 0
  | .help => 0
  | .unsettled _ => 1
  | .worked transcript => if transcript.ok then 0 else 1

/-- The name and the version of the program. -/
def versionText : Text :=
  "stitchwork 0.1.0\n".toList

/-- How the program is used. -/
def helpText : Text :=
  ("Translate crochet shorthand into crochet simulator instructions\n\n" ++
    "Usage: stitchwork [OPTIONS] [LINE]...\n\n" ++
    "  -c, --config <FILE>      TOML file layered over the built-in defaults\n" ++
    "  -s, --separator <TEXT>   Text printed between display tokens\n" ++
    "      --stage <STAGE>      display, tokens, stitches or steps\n" ++
    "  -f, --format <FORMAT>    text, json or yaml\n" ++
    "      --debug              Enable debug logging\n" ++
    "      --keep-going         Continue with the next line after an error\n" ++
    "  -h, --help               Print help\n" ++
    "  -V, --version            Print version\n").toList

/-- What goes to standard output. -/
def output : Outcome → Text
  | .version => versionText
  | .help => helpText
  | .worked transcript => transcript.output
  | _ => []

/-- What goes to standard error. -/
def notices : Outcome → Text
  | .misused _ => "error: the arguments are not understood; try --help\n".toList
  | .unsettled _ => "Error: the configuration cannot be loaded\n".toList
  | .worked transcript => transcript.notices.flatMap Notice.render
  | _ => []

end Outcome

/-- Run the program on a request.  `contents` is what the settings file holds, if it is there,
and `input` what standard input holds. -/
def perform (request : Except CommandLine.Misuse CommandLine.Request) (contents : Option Text)
    (input : List UInt8) : Outcome :=
  match request with
  | .error misuse => .misused misuse
  | .ok .version => .version
  | .ok .help => .help
  | .ok (.work options) =>
      match Settings.load (options.layers contents) with
      | .error defect => .unsettled defect
      | .ok settings =>
          let lines := if options.lines.isEmpty then inputLines input else options.lines.map some
          .worked ((options.session settings).run lines)

end CrochetShorthand
