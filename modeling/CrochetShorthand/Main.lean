import CrochetShorthand.CommandLine

/-!
# The program

Reads the arguments, the settings file and standard input, runs the program on them, and writes
what came of it.  Everything is decided in `CrochetShorthand.perform`.
-/

open CrochetShorthand

/-- All bytes of a stream. -/
partial def readAll (stream : IO.FS.Stream) (taken : ByteArray) : IO ByteArray := do
  let chunk ← stream.read 65536
  if chunk.isEmpty then return taken
  readAll stream (taken ++ chunk)

/-- What the settings file holds, when the request names one that can be read. -/
def readSettings (request : Except CommandLine.Misuse CommandLine.Request) :
    IO (Option Text) := do
  match request with
  | .ok (.work options) =>
      match options.config with
      | none => return none
      | some path =>
          try
            let contents ← IO.FS.readFile (String.ofList path)
            return some contents.toList
          catch _ => return none
  | _ => return none

/-- What standard input holds, when the request leaves the lines to it. -/
def readInput (request : Except CommandLine.Misuse CommandLine.Request) : IO (List UInt8) := do
  match request with
  | .ok (.work options) =>
      if options.lines.isEmpty then
        let bytes ← readAll (← IO.getStdin) ByteArray.empty
        return bytes.toList
      else return []
  | _ => return []

def main (arguments : List String) : IO UInt32 := do
  let request := CommandLine.read (arguments.map String.toList)
  let contents ← readSettings request
  let input ← readInput request
  let outcome := perform request contents input
  (← IO.getStdout).putStr (String.ofList outcome.output)
  (← IO.getStderr).putStr (String.ofList outcome.notices)
  return outcome.exitCode
