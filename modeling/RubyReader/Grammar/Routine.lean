/-
# `Routine` — reading rules as data

A routine says how one phrase of the grammar is read: it looks at tokens,
moves on, asks for and declares variables, interns symbols, and asks for
other phrases to be read, which are its goals.  A routine is a tree of such
steps and nothing is read by it; what runs it decides what a step does.

    routine   what it says
    -------   ------------
    done      the phrase is read, this is what it is
    fail      the phrase cannot be read
    current   go on according to the token at the cursor
    next      go on according to the token behind it
    previous  go on according to the token before it
    advance   move to the next token
    skipLines move past line ends
    isLocal   go on according to whether a name is a variable of the scope
    declare   add a variable to the scope, go on according to whether it is new
    intern    add a symbol to the table
    read      read another phrase and go on with what it is
-/
import RubyReader.Diagnostic
import RubyReader.Grammar.Form
import RubyReader.Tree.Basic

namespace RubyReader

/-! ## Goals -/

/-- The phrases of the grammar. -/
inductive Goal where
  /-- an expression, with all continuations that bind tighter than `min` -/
  | expression (min : Precedence)
  /-- an expression that starts with its own kind of token -/
  | leading (form : LeadingForm)
  /-- one continuation of an expression -/
  | following (form : FollowingForm) (left : Node)
  /-- the continuations of an expression that bind tighter than `min` -/
  | continuation (left : Node) (min : Precedence)
  /-- statements, up to a token that is not read -/
  | statements (terminator : TokenKind)
  /-- the arguments of a call without parentheses -/
  | bareArguments
  /-- the arguments of a call, behind its opening parenthesis -/
  | arguments
  /-- the parameters and the body of a method, in a scope of its own -/
  | method
  /-- a parameter of a method -/
  | parameter
  /-- parameters, behind their opening parenthesis -/
  | parameters
  /-- parameters without parentheses -/
  | bareParameters

/-- What is read for a goal. -/
@[reducible] def Goal.Result : Goal → Type
  | .expression _ | .leading _ | .following .. | .continuation .. | .parameter => Node
  | .statements _ | .bareArguments | .arguments | .parameters | .bareParameters => List Node
  | .method => List Node × List Node

/-! ## Routines -/

/-- How a phrase is read. -/
inductive Routine (α : Type) : Type where
  | done (result : α)
  | fail (error : ParseError)
  | current (go : Token → Routine α)
  | next (go : Token → Routine α)
  | previous (go : Option Token → Routine α)
  | advance (go : Routine α)
  | skipLines (go : Routine α)
  | isLocal (name : String) (go : Bool → Routine α)
  | declare (name : String) (go : Bool → Routine α)
  | intern (name : String) (go : Routine α)
  | read (goal : Goal) (go : goal.Result → Routine α)

namespace Routine

/-- One routine, and then another according to what was read. -/
def bind {α β : Type} : Routine α → (α → Routine β) → Routine β
  | .done result, go => go result
  | .fail error, _ => .fail error
  | .current k, go => .current fun token => (k token).bind go
  | .next k, go => .next fun token => (k token).bind go
  | .previous k, go => .previous fun token => (k token).bind go
  | .advance k, go => .advance (k.bind go)
  | .skipLines k, go => .skipLines (k.bind go)
  | .isLocal name k, go => .isLocal name fun known => (k known).bind go
  | .declare name k, go => .declare name fun new => (k new).bind go
  | .intern name k, go => .intern name (k.bind go)
  | .read goal k, go => .read goal fun result => (k result).bind go

instance : Monad Routine where
  pure := .done
  bind := bind

/-! ## Single steps

One routine for each effect: looking at the tokens around the cursor, moving it, and the two
tables of names.  `phrase` alone reads anything inside. -/

def currentToken : Routine Token := current .done

def nextToken : Routine Token := next .done

def previousToken : Routine (Option Token) := previous .done

def step : Routine Unit := advance (.done ())

def skipLineEnds : Routine Unit := skipLines (.done ())

def knows (name : String) : Routine Bool := isLocal name .done

/-- Declares a local variable; false if it was one before. -/
def declareLocal (name : String) : Routine Bool := declare name .done

def symbol (name : String) : Routine Symbol := intern name (.done ⟨name⟩)

def phrase (goal : Goal) : Routine goal.Result := read goal .done

def expression (min : Precedence) : Routine Node := phrase (.expression min)

/-! ## Tokens that are wanted, and those that are not -/

/-- The token at the cursor, which is moved past. -/
def take : Routine Token := do
  let token ← currentToken
  step
  pure token

/-- Moves past the token at the cursor if it is of a kind. -/
def eat (kind : TokenKind) : Routine Bool := do
  let token ← currentToken
  if token.kind = kind then
    step
    pure true
  else pure false

/-- The token at the cursor is not what the grammar asks for. -/
def unexpected {α : Type} (expected : Expectation) : Routine α := do
  let token ← currentToken
  fail (.malformed (.blame (.unexpected token expected) token))

/-- The token at the cursor, which must be of a kind, and is moved past. -/
def expect (kind : TokenKind) (within : Construct) : Routine Token := do
  let token ← currentToken
  if token.kind = kind then take
  else unexpected (.token kind within)

/-- A rule was handed a token that it does not read. -/
def misrouted {α : Type} (rule : TokenRule) (token : Token) : Routine α :=
  fail (.internal (.misroutedToken rule token.kind token.position))

/-- Moves past the end of a statement: line ends, or nothing in front of an
`end` and at the end of the input. -/
def endStatement : Routine Unit := do
  let token ← currentToken
  match token.kind with
  | .newline => skipLineEnds
  | .eof | .kwEnd => pure ()
  | _ => unexpected .endOfLine

end Routine
end RubyReader
