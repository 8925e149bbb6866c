/-
# `Steps` — programs and single expressions

A parser reads a whole program, or one expression after another; each step
begins where the one before it stopped, also after a failure.  A program is
read in the scope of the parser, which keeps the variables that it declares
even if it fails.  An expression is read in a scope that its caller brings
along, and the scope of the parser is left alone.
-/
import RubyReader.Parser.Termination

namespace RubyReader.Parser

/-- A parser at the first of the tokens, in a scope. -/
def ofTokens (tokens : List Token) (scope symbols : Names) : Parser :=
  ⟨.ofTokens tokens, scope, symbols, 0⟩

/-- Reads a program: statements up to the end of the input, as a block at
the place of the token where it begins. -/
def programWithin (limit : Option Nat) (p : Parser) : Outcome Node :=
  match p.read limit (.statements .eof) with
  | (.ok statements, q) => (.ok (.block statements p.cursor.current.position), q)
  | (.error error, q) => (.error error, q)

/-- Reads an expression in a scope of the caller, which is given back with
the outcome. -/
def expressionWithin (limit : Option Nat) (min : Precedence) (scope : Names) (p : Parser) :
    Except ParseError Node × Names × Parser :=
  match (p.withScope scope).read limit (.expression min) with
  | (result, q) => (result, q.scope, q.withScope p.scope)

def program (p : Parser) : Outcome Node := p.programWithin (some nestingLimit)

def expression (min : Precedence) (scope : Names) (p : Parser) :
    Except ParseError Node × Names × Parser :=
  p.expressionWithin (some nestingLimit) min scope

/-! ## Steps on one parser -/

/-- What a parser is asked for. -/
inductive Step where
  | program
  | expression (min : Precedence)
deriving DecidableEq

/-- What a step has read, or why it could not, with the scope of its caller
and the parser afterwards. -/
structure StepOutcome where
  result : Except ParseError Node
  scope : Names
  parser : Parser

/-- One step; only an expression touches the scope of the caller. -/
def perform (scope : Names) (p : Parser) : Step → StepOutcome
  | .program => let (result, q) := p.program; ⟨result, scope, q⟩
  | .expression min => let (result, scope, q) := p.expression min scope; ⟨result, scope, q⟩

/-- Steps one after the other, each from where the one before it stopped. -/
def performAll (scope : Names) (p : Parser) : List Step → List StepOutcome
  | [] => []
  | step :: rest =>
    let outcome := p.perform scope step
    outcome :: performAll outcome.scope outcome.parser rest

end RubyReader.Parser
