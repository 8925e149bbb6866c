/-
# `Diagnostic` — what can be wrong, and how it is told

A malformed input has a cause and a place; the wording of a cause is in one
function.  A fault is no defect of the input but of the reader: a node
where only another kind is allowed, or a token handed to a rule that does
not read it.  A report collects the errors of one text.
-/
import RubyReader.Token.Basic
import RubyReader.Tree.NodeType

namespace RubyReader

/-! ## Malformed input

Each part of a message has its wording beside it: a construct and an expectation by name, a
cause as a sentence, to which the error adds its place. -/

/-- The construct that a required token belongs to. -/
inductive Construct where
  | group
  | groupClose
  | call
  | callClose
  | assignment
  | send
  | sendName
  | ternaryQuestion
  | ternaryColon
  | definition
  | definitionName
  | parameters
  | parametersClose
  | definitionEnd
deriving DecidableEq

def Construct.text : Construct → String
  | group => "group"
  | groupClose => "group closing paren"
  | call => "call"
  | callClose => "call closing paren"
  | assignment => "assignment"
  | send => "send"
  | sendName => "send method name"
  | ternaryQuestion => "ternary ?"
  | ternaryColon => "ternary :"
  | definition => "def"
  | definitionName => "method name"
  | parameters => "def params"
  | parametersClose => "def params closing paren"
  | definitionEnd => "def end"

/-- What the grammar asked for where it found something else. -/
inductive Expectation where
  | expression
  | endOfLine
  | parameterName
  | assignable
  | token (kind : TokenKind) (within : Construct)
deriving DecidableEq

def Expectation.text : Expectation → String
  | expression => "expression"
  | endOfLine => "end-of-line"
  | parameterName => "parameter name"
  | assignable => "a local variable on the left side of `=`"
  | token kind within => kind.description ++ " (" ++ within.text ++ ")"

/-- Why an input is malformed. -/
inductive Cause where
  /-- a string without its closing quote -/
  | unterminatedString
  /-- a character that begins no token -/
  | unexpectedCharacter (text : String)
  /-- a token that the grammar does not allow here -/
  | unexpected (found : Token) (expected : Expectation)
  /-- a number that its type cannot hold -/
  | outOfRange (number : Token)
  /-- two parameters of one name -/
  | duplicatedArgument
  /-- more expressions inside each other than are read -/
  | nestedTooDeeply
  /-- any other message -/
  | note (text : String)
deriving DecidableEq

def Cause.message : Cause → String
  | unterminatedString => "Unterminated string literal"
  | unexpectedCharacter text => "Unexpected character `" ++ text ++ "`"
  | unexpected found expected => "unexpected " ++ found.describe ++ "; expected " ++ expected.text
  | outOfRange number => "numeric literal " ++ number.describe ++ " is out of range"
  | duplicatedArgument => "duplicated argument name"
  | nestedTooDeeply => "expression nested too deeply"
  | note text => text

/-- An error of the input: its cause, its place, the text of the offending
token if there is one. -/
structure SyntaxError where
  cause : Cause
  position : Position
  token : Option String
deriving DecidableEq

namespace SyntaxError

def message (error : SyntaxError) : String := error.cause.message

def text (error : SyntaxError) : String := error.message ++ " at " ++ error.position.text

/-- An error that blames a token. -/
def blame (cause : Cause) (token : Token) : SyntaxError :=
  ⟨cause, token.position, some token.literal⟩

end SyntaxError

/-! ## Faults of the reader -/

/-- The rules that read one kind of token and nothing else. -/
inductive TokenRule where
  | boolean
  | nil
  | number
  | symbol
  | string
  | identifier
  | operator
  | signedNumber
deriving DecidableEq

def TokenRule.text : TokenRule → String
  | boolean => "bool"
  | nil => "nil"
  | number => "numeric literal"
  | symbol => "symbol"
  | string => "string"
  | identifier => "identifier"
  | operator => "infix operator"
  | signedNumber => "signed literal"

/-- A violated invariant of the reader. -/
inductive Fault where
  | unexpectedNode (expected found : NodeType) (position : Position)
  | misroutedToken (rule : TokenRule) (kind : TokenKind) (position : Position)
deriving DecidableEq

def Fault.text : Fault → String
  | unexpectedNode expected found position =>
    "expected " ++ expected.label ++ " node, found " ++ found.label ++ " node at " ++ position.text
  | misroutedToken rule kind position =>
    rule.text ++ " handler cannot parse " ++ kind.description ++ " at " ++ position.text

/-- Why a text has no syntax tree. -/
inductive ParseError where
  | malformed (error : SyntaxError)
  | internal (fault : Fault)
deriving DecidableEq

def ParseError.text : ParseError → String
  | malformed error => error.text
  | internal fault => "internal parser error: " ++ fault.text

/-! ## Reports -/

/-- The errors of one text, in the order in which they were met. -/
structure Report where
  errors : List SyntaxError
deriving DecidableEq

namespace Report

def empty : Report := ⟨[]⟩

def add (report : Report) (error : SyntaxError) : Report := ⟨report.errors ++ [error]⟩

def size (report : Report) : Nat := report.errors.length

/-- The error that was met first. -/
def first? (report : Report) : Option SyntaxError := report.errors.head?

def text (report : Report) : String :=
  String.join (report.errors.map fun e => "ERROR: " ++ e.text ++ "\n")

end Report
end RubyReader
