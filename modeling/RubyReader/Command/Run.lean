/-
# `Run` — the command, from its arguments to its output

What is read and written is data here: arguments, lines and files come in,
and a transcript comes out.  A program that cannot be read costs the exit
code 1, except at the prompt, where only its message is written.
-/
import RubyReader.Command.Folder
import RubyReader.Command.Options
import RubyReader.Command.Typed
import RubyReader.Listing.Data
import RubyReader.Session
import RubyReader.Text.Classes
import RubyReader.Value.Display

namespace RubyReader

/-- What a command wrote, and its exit code. -/
structure Transcript where
  exit : Nat
  stdout : String
  stderr : String
deriving DecidableEq

namespace Command

variable [Styling]

/-- A message with its heading. -/
def complaint (colours : Bool) (heading message : String) : String :=
  Styling.span [.red, .bold] colours heading ++ " " ++ message ++ "\n"

/-- The message about a program that cannot be read. -/
def failure (colours : Bool) : ParseError → String
  | .malformed error => complaint colours "syntax error:" error.text
  | .internal fault => complaint colours "bug:" (ParseError.internal fault).text

def unreadable (colours : Bool) (error : FileError) : String :=
  complaint colours "error:" error.text

/-- A program in the format asked for. -/
def render (format : Format) (colours : Bool) (session : Session) (code : String) :
    Except ParseError String × Session :=
  match session.parse code with
  | (.error error, after) => (.error error, after)
  | (.ok node, after) =>
    match format with
    | .tree => (.ok (node.outline.block ++ "\n"), after)
    | .sexp =>
      match after.toSexp node with
      | (.error error, after) => (.error error, after)
      | (.ok value, after) => (.ok (value.pretty colours ++ "\n"), after)

def runCode (format : Format) (colours : Bool) (code : String) : Transcript :=
  match (render format colours .new code).1 with
  | .ok text => ⟨0, text, ""⟩
  | .error error => ⟨1, "", failure colours error⟩

/-! ## The prompt -/

def prompt : String := "> "

def isBlankLine (line : String) : Bool := line.toList.all Text.isBlank

/-- One line: what it makes the command write to either output, and the
session after it. -/
def runLine (format : Format) (colours : Bool) (session : Session) (line : String) :
    String × String × Session :=
  if isBlankLine line then ("", "", session)
  else
    match render format colours session line with
    | (.ok text, after) => (text, "", after)
    | (.error error, after) => ("", failure colours error, after)

/-- What is written behind the last prompt: the end of the input is a new
line, and input that is no text an error. -/
def farewell (colours broken : Bool) : Transcript :=
  if broken then ⟨1, "", unreadable colours .notText⟩ else ⟨0, "\n", ""⟩

/-- Lines up to the end of the input. -/
def runLines (format : Format) (colours broken : Bool) (session : Session) :
    List String → Transcript
  | [] =>
    let last := farewell colours broken
    { last with stdout := prompt ++ last.stdout }
  | line :: rest =>
    let (out, err, after) := runLine format colours session line
    let later := runLines format colours broken after rest
    ⟨later.exit, prompt ++ out ++ later.stdout, err ++ later.stderr⟩

/-! ## The whole command -/

/-- The answer to a command line that is not carried out: help is asked
for, anything else is an error.  Colours are those of the terminal. -/
def refuse (colours : Bool) : UsageError → Transcript
  | .help => ⟨0, usage ++ "\n", ""⟩
  | error => ⟨2, "", complaint colours "error:" (error.text ++ "\n\n" ++ usage)⟩

/-- What options ask for, given the lines typed and the files there are. -/
def perform (options : Options) (colours : Bool) (typed : TypedLines)
    (readFile : String → Except FileError String) : Transcript :=
  match options.input with
  | .prompt => runLines options.format colours typed.broken .new typed.lines
  | .code code => runCode options.format colours code
  | .file path =>
    match readFile path with
    | .ok code => runCode options.format colours code
    | .error error => ⟨1, "", unreadable colours error⟩

def run (args : List String) (colours : Bool) (typed : TypedLines)
    (readFile : String → Except FileError String) : Transcript :=
  match Options.ofArgs args with
  | .error error => refuse colours error
  | .ok options => perform options (colours && options.colours) typed readFile

end Command
end RubyReader
