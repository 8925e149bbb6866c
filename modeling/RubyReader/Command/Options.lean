/-
# `Options` — the arguments of the command line

    -e CODE | FILE    what is read, at most one of them; else lines from a prompt
    --ast             what is written
    --no-color        how it is written
    -h | --help

Arguments are read from the left, and the first one that is wrong decides.
-/
namespace RubyReader

/-- Where programs come from. -/
inductive Input where
  /-- one line after another -/
  | prompt
  | code (text : String)
  | file (path : String)
deriving DecidableEq

/-- What is written for a program. -/
inductive Format where
  | sexp
  | tree
deriving DecidableEq

/-- What the command line asks for. -/
structure Options where
  input : Input
  format : Format
  colours : Bool
deriving DecidableEq

/-- Why a command line is not carried out. -/
inductive UsageError where
  | help
  | unknownOption (option : String)
  | missingCode
  | extraInput (input : String)
deriving DecidableEq

def UsageError.text : UsageError → String
  | help => "help requested"
  | unknownOption option => "unknown option `" ++ option ++ "`"
  | missingCode => "`-e` needs an argument"
  | extraInput input => "only one input can be given, found `" ++ input ++ "`"

def usage : String := "\n".intercalate
  ["Usage: garnet [OPTIONS] [FILE]",
   "",
   "Parses Ruby source code and prints it as s-expressions.",
   "Reads FILE, the code given with -e, or lines typed into a prompt.",
   "",
   "Options:",
   "  -e CODE       parse CODE",
   "  --ast         print the syntax tree instead of s-expressions",
   "  --no-color    disable colored output",
   "  -h, --help    print this message"]

namespace Options

/-- No arguments: lines from a prompt, as coloured tagged lists. -/
def default : Options := ⟨.prompt, .sexp, true⟩

/-- An input, named as it was given, unless there is one already. -/
def withInput (options : Options) (input : Input) (given : String) : Except UsageError Options :=
  if options.input = .prompt then .ok { options with input } else .error (.extraInput given)

/-- Reads arguments on top of options that are known. -/
def readMore (options : Options) : List String → Except UsageError Options
  | [] => .ok options
  | ["-e"] => .error .missingCode
  | "-e" :: code :: rest =>
    match options.withInput (.code code) code with
    | .ok more => more.readMore rest
    | .error error => .error error
  | "-h" :: _ => .error .help
  | "--help" :: _ => .error .help
  | "--ast" :: rest => { options with format := .tree }.readMore rest
  | "--no-color" :: rest => { options with colours := false }.readMore rest
  | arg :: rest =>
    if arg.startsWith "-" then .error (.unknownOption arg)
    else
      match options.withInput (.file arg) arg with
      | .ok more => more.readMore rest
      | .error error => .error error

/-- Reads the arguments behind the name of the command. -/
def ofArgs (args : List String) : Except UsageError Options := default.readMore args

end Options
end RubyReader
