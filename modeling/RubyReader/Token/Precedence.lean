/-
# `Precedence` — how tightly a token continues an expression

    lowest < ternary < assignment < equality < ordering < sum < product < dot < unary < call

Only a signed number continues an expression among the numbers: `a -1` is
a subtraction, `a 1` is not.
-/
import RubyReader.Token.Basic

namespace RubyReader

/-- The levels of binding, weakest first. -/
inductive Precedence where
  | lowest
  | ternary
  | assignment
  | equality
  | ordering
  | sum
  | product
  | dot
  | unary
  | call
deriving DecidableEq

namespace Precedence

def all : List Precedence :=
  [lowest, ternary, assignment, equality, ordering, sum, product, dot, unary, call]

/-- The place of a level in the order. -/
def rank : Precedence → Nat
  | lowest => 0
  | ternary => 1
  | assignment => 2
  | equality => 3
  | ordering => 4
  | sum => 5
  | product => 6
  | dot => 7
  | unary => 8
  | call => 9

instance : LT Precedence := ⟨fun p q => p.rank < q.rank⟩

instance (p q : Precedence) : Decidable (p < q) := inferInstanceAs (Decidable (p.rank < q.rank))

instance : Ord Precedence := ⟨fun p q => compare p.rank q.rank⟩

def label : Precedence → String
  | lowest => "Lowest"
  | ternary => "Ternary"
  | assignment => "Assignment"
  | equality => "Equality"
  | ordering => "LessGreater"
  | sum => "Sum"
  | product => "Product"
  | dot => "Dot"
  | unary => "Prefix"
  | call => "Call"

def ofLabel? (name : String) : Option Precedence := all.find? fun level => level.label == name

end Precedence

/-- The level at which a token continues an expression; `lowest` for one that never does. -/
def Token.precedence (token : Token) : Precedence :=
  match token.kind with
  | .plus | .minus => .sum
  | .integer | .float => if token.signed then .sum else .lowest
  | .times | .divide => .product
  | .assign => .assignment
  | .equal => .equality
  | .less | .lessEqual | .greater | .greaterEqual => .ordering
  | .lparen => .call
  | .dot => .dot
  | .question | .colon => .ternary
  | _ => .lowest

end RubyReader
