/-
# `Parser` — running the routines of the grammar

A parser stands at a token, knows the local variables of the scope that is
being read and the symbols met so far, and counts the expressions that are
open.  Two goals change more than their routine says:

    expression   is refused if too many expressions are open, and is
                 itself open for as long as it is read
    method       is read in a scope of its own; the scope around it comes
                 back, whether the method could be read or not
-/
import RubyReader.Grammar.Rules
import RubyReader.Token.Cursor

namespace RubyReader

/-- A parser between two steps. -/
structure Parser where
  cursor : Cursor
  scope : Names
  symbols : Names
  /-- the number of expressions that are open -/
  depth : Nat
deriving DecidableEq

/-- What was read, or why it could not be, and the parser afterwards. -/
abbrev Outcome (α : Type) : Type := Except ParseError α × Parser

/-- The most expressions that may be open at once. -/
def nestingLimit : Nat := 256

namespace Routine

/-- Runs a routine, with a reader for the phrases that it asks for.  There
is no outcome only if that reader has none. -/
def run {α : Type} (nested : (goal : Goal) → Parser → Option (Outcome goal.Result)) :
    Routine α → Parser → Option (Outcome α)
  | .done result, p => some (.ok result, p)
  | .fail error, p => some (.error error, p)
  | .current go, p => run nested (go p.cursor.current) p
  | .next go, p => run nested (go p.cursor.next) p
  | .previous go, p => run nested (go p.cursor.previous?) p
  | .advance go, p => run nested go { p with cursor := p.cursor.advance }
  | .skipLines go, p => run nested go { p with cursor := p.cursor.skipLines }
  | .isLocal name go, p => run nested (go (p.scope.contains name)) p
  | .declare name go, p =>
    run nested (go (!p.scope.contains name)) { p with scope := p.scope.insert name }
  | .intern name go, p => run nested go { p with symbols := p.symbols.insert name }
  | .read goal go, p =>
    match nested goal p with
    | none => none
    | some (.error error, q) => some (.error error, q)
    | some (.ok result, q) => run nested (go result) q

end Routine

namespace Parser

/-- Whether no further expression may be opened; without a limit one always may. -/
def isFull (limit : Option Nat) (p : Parser) : Bool := limit.any fun most => most ≤ p.depth

/-- The outcome of an expression that is not read any more. -/
def refuse {α : Type} (p : Parser) : Outcome α :=
  (.error (.malformed (.blame .nestedTooDeeply p.cursor.current)), p)

def opened (p : Parser) : Parser := { p with depth := p.depth + 1 }

def closed (p : Parser) : Parser := { p with depth := p.depth - 1 }

def withScope (p : Parser) (scope : Names) : Parser := { p with scope }

end Parser

/-- A phrase as read by `body`, inside what its goal puts around it. -/
def Goal.around (limit : Option Nat) :
    (goal : Goal) → (body : Parser → Option (Outcome goal.Result)) → Parser →
      Option (Outcome goal.Result)
  | .expression _, body, p =>
    if p.isFull limit then some p.refuse
    else (body p.opened).map fun (result, q) => (result, q.closed)
  | .method, body, p =>
    (body (p.withScope .empty)).map fun (result, q) => (result, q.withScope p.scope)
  | .leading _, body, p | .following .., body, p | .continuation .., body, p
  | .statements _, body, p | .bareArguments, body, p | .arguments, body, p
  | .parameter, body, p | .parameters, body, p | .bareParameters, body, p => body p

/-- Reads a phrase with at most `fuel` phrases inside each other; there is no
outcome if they do not suffice. -/
def Parser.attempt (limit : Option Nat) : (fuel : Nat) → (goal : Goal) → Parser →
    Option (Outcome goal.Result)
  | 0, _, _ => none
  | fuel + 1, goal, p => goal.around limit (goal.routine.run (attempt limit fuel)) p

end RubyReader
