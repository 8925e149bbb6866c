/-
# `Main` — the command at a terminal

The outer layer: it fetches arguments, lines and files, and writes what the
command says.
-/
import RubyReader.Command.Run

namespace RubyReader.Terminal

/-- Whether the terminal shows colours. -/
def showsColours : IO Bool := do
  let forced ← IO.getEnv "CLICOLOR_FORCE"
  if forced.any fun value => value ≠ "0" then return true
  if (← IO.getEnv "CLICOLOR") = some "0" then return false
  if (← IO.getEnv "NO_COLOR").isSome then return false
  if (← IO.getEnv "TERM") = some "dumb" then return false
  (← IO.getStdout).isTty

/-- The text of a file of the system. -/
def readFile (path : String) : IO (Except FileError String) := do
  try
    return textOfBytes (← IO.FS.readBinFile path)
  catch error =>
    match error with
    | .noFileOrDirectory .. => return .error .missing
    | .inappropriateType _ code _ => return .error (if code = 21 then .isFolder else .notFolder)
    | .permissionDenied .. => return .error (.other "Permission denied (os error 13)")
    | other => return .error (.other other.toString)

def emit (transcript : Transcript) : IO UInt32 := do
  IO.print transcript.stdout
  IO.eprint transcript.stderr
  return transcript.exit.toUInt32

/-- The bytes up to the next newline, which is one of them, or up to the end. -/
partial def readLine (input : IO.FS.Stream) (line : ByteArray) : IO ByteArray := do
  let next ← input.read 1
  if next.isEmpty then return line
  let line := line ++ next
  if next[0]! = 10 then return line
  readLine input line

/-- Answers line after line until the input ends. -/
partial def converse (format : Format) (colours : Bool) (session : Session) : IO UInt32 := do
  IO.print Command.prompt
  (← IO.getStdout).flush
  let typed := TypedLines.ofBytes (← readLine (← IO.getStdin) .empty)
  match typed.lines with
  | [] => emit (Command.farewell colours typed.broken)
  | line :: _ =>
    let (out, err, after) := Command.runLine format colours session line
    IO.print out
    IO.eprint err
    converse format colours after

def start (args : List String) : IO UInt32 := do
  let colours ← showsColours
  match Options.ofArgs args with
  | .error error => emit (Command.refuse colours error)
  | .ok options =>
    match options.input with
    | .prompt => converse options.format (colours && options.colours) .new
    | .code _ => emit (Command.run args colours ⟨[], false⟩ fun _ => .error .missing)
    | .file path =>
      let found ← readFile path
      emit (Command.run args colours ⟨[], false⟩ fun _ => found)

end RubyReader.Terminal

def main (args : List String) : IO UInt32 := RubyReader.Terminal.start args
