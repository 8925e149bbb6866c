/-
# `NodeType` — the thirteen kinds of node
-/
namespace RubyReader

/-- The kind of a node of the syntax tree. -/
inductive NodeType where
  | assignment
  | block
  | call
  | definition
  | falseLiteral
  | identifier
  | conditional
  | implicitSelf
  | literal
  | nilLiteral
  | string
  | symbol
  | trueLiteral
deriving DecidableEq

namespace NodeType

def all : List NodeType :=
  [assignment, block, call, definition, falseLiteral, identifier, conditional, implicitSelf,
   literal, nilLiteral, string, symbol, trueLiteral]

def label : NodeType → String
  | assignment => "Assignment"
  | block => "Block"
  | call => "Call"
  | definition => "Def"
  | falseLiteral => "False"
  | identifier => "Identifier"
  | conditional => "If"
  | implicitSelf => "ImplicitSelf"
  | literal => "Literal"
  | nilLiteral => "Nil"
  | string => "String"
  | symbol => "Symbol"
  | trueLiteral => "True"

def ofLabel? (name : String) : Option NodeType := all.find? fun type => type.label == name

end NodeType
end RubyReader
