/-
# `Session` — successive inputs that share their variables

Each input is read in the scope that the successful ones before it have
left; the variables of an input that fails are forgotten.  Symbols stay.
-/
import RubyReader.Parser.Steps
import RubyReader.Token.Lexer
import RubyReader.Tree.Sexp

namespace RubyReader

/-- What stays from one input to the next. -/
structure Session where
  symbols : Names
  locals : Names
deriving DecidableEq

namespace Session

def new : Session := ⟨.empty, .empty⟩

/-- Reads an input.  The first lexical error comes before all errors of
the grammar. -/
def parse (session : Session) (text : String) : Except ParseError Node × Session :=
  let lexed := lex text
  match lexed.report.first? with
  | some error => (.error (.malformed error), session)
  | none =>
    match (Parser.ofTokens lexed.tokens session.locals session.symbols).program with
    | (.ok node, p) => (.ok node, ⟨p.symbols, p.scope⟩)
    | (.error error, p) => (.error error, { session with symbols := p.symbols })

def toSexp (session : Session) (node : Node) : Except ParseError Value × Session :=
  match node.sexp session.symbols with
  | (.ok value, symbols) => (.ok value, { session with symbols })
  | (.error fault, symbols) => (.error (.internal fault), { session with symbols })

def parseToSexp (session : Session) (text : String) : Except ParseError Value × Session :=
  match session.parse text with
  | (.ok node, after) => after.toSexp node
  | (.error error, after) => (.error error, after)

end Session

def parse (text : String) : Except ParseError Value := (Session.new.parseToSexp text).1

end RubyReader
