/-
# `Node` — the syntax tree

A program is a block of statements.  Operators and method calls are sends
of a message to a receiver; a call written without a receiver goes to the
implicit self.  Every node keeps the place it was read from.
-/
import RubyReader.Token.Basic
import RubyReader.Tree.NodeType
import RubyReader.Value.Basic

namespace RubyReader

/-- A name in the tree: its token, and whether it was a local variable
where it was read. -/
structure Identifier where
  token : Token
  isLocal : Bool
deriving DecidableEq

def Identifier.name (identifier : Identifier) : String := identifier.token.literal

/-- A syntax tree. -/
inductive Node where
  | assignment (target : Identifier) (value : Node) (position : Position)
  | block (nodes : List Node) (position : Position)
  | call (receiver : Node) (message : Symbol) (args : List Node) (position : Position)
  | definition (name : Identifier) (params body : List Node) (position : Position)
  | falseLiteral (position : Position)
  | identifier (identifier : Identifier) (position : Position)
  | conditional (condition ifTrue ifFalse : Node) (position : Position)
  | implicitSelf (position : Position)
  | literal (value : Value) (position : Position)
  | nilLiteral (position : Position)
  | string (value : Value) (position : Position)
  | symbol (value : Value) (position : Position)
  | trueLiteral (position : Position)

namespace Node

def type : Node → NodeType
  | assignment .. => .assignment
  | block .. => .block
  | call .. => .call
  | definition .. => .definition
  | falseLiteral .. => .falseLiteral
  | identifier .. => .identifier
  | conditional .. => .conditional
  | implicitSelf .. => .implicitSelf
  | literal .. => .literal
  | nilLiteral .. => .nilLiteral
  | string .. => .string
  | symbol .. => .symbol
  | trueLiteral .. => .trueLiteral

def position : Node → Position
  | assignment _ _ p => p
  | block _ p => p
  | call _ _ _ p => p
  | definition _ _ _ p => p
  | falseLiteral p => p
  | identifier _ p => p
  | conditional _ _ _ p => p
  | implicitSelf p => p
  | literal _ p => p
  | nilLiteral p => p
  | string _ p => p
  | symbol _ p => p
  | trueLiteral p => p

mutual

/-- The names of the symbols that a tree holds: the messages of its calls
and the symbols in its values. -/
def symbolNames : Node → List String
  | assignment _ value _ => symbolNames value
  | block nodes _ => allSymbolNames nodes
  | call receiver message args _ =>
    message.name :: symbolNames receiver ++ allSymbolNames args
  | definition _ params body _ => allSymbolNames params ++ allSymbolNames body
  | conditional condition ifTrue ifFalse _ =>
    symbolNames condition ++ symbolNames ifTrue ++ symbolNames ifFalse
  | literal value _ => value.symbolNames
  | string value _ => value.symbolNames
  | symbol value _ => value.symbolNames
  | falseLiteral _ | identifier _ _ | implicitSelf _ | nilLiteral _ | trueLiteral _ => []

def allSymbolNames : List Node → List String
  | [] => []
  | node :: rest => symbolNames node ++ allSymbolNames rest

end

end Node
end RubyReader
