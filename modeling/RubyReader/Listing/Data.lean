/-
# `Data` — the outlines of tokens, values, trees and failures
-/
import RubyReader.Diagnostic
import RubyReader.Listing.Outline
import RubyReader.Number.Layout
import RubyReader.Tree.Basic

namespace RubyReader

/-- A text, in the listing form. -/
def Outline.text (text : String) : Outline := atom (Text.quoteListing text)

def Outline.option : Option Outline → Outline
  | none => atom "None"
  | some outline => tuple "Some" [outline]

def Position.outline (position : Position) : Outline :=
  .record "Position" [("line", .nat position.line), ("column", .nat position.column)]

def Token.outline (token : Token) : Outline :=
  .record "Token"
    [("token_type", .atom token.kind.label), ("literal", .text token.literal),
     ("line", .nat token.position.line), ("column", .nat token.position.column),
     ("has_sign", .bool token.signed)]

def Symbol.outline (symbol : Symbol) : Outline := .tuple "Symbol" [.text symbol.name]

def Identifier.outline (identifier : Identifier) : Outline :=
  .record "Identifier"
    [("token", identifier.token.outline), ("is_local_variable", .bool identifier.isLocal)]

namespace Value

mutual

def outline : Value → Outline
  | nil => .atom "Nil"
  | bool true => .atom "True"
  | bool false => .atom "False"
  | int n => .tuple "Integer" [.atom (toString n.toInt)]
  | float x => .tuple "Float" [.atom (FloatLayout.listing.write x)]
  | str s => .tuple "String" [.text s]
  | sym symbol => .tuple "Symbol" [symbol.outline]
  | sexp tag children =>
    .tuple "Sexp" [.record "Sexp" [("tag", tag.outline), ("children", .list (outlines children))]]

def outlines : List Value → List Outline
  | [] => []
  | value :: rest => outline value :: outlines rest

end

end Value

namespace Node

/-- A node as its kind at a place. -/
def placed (kind : Outline) (position : Position) : Outline :=
  .record "Node" [("kind", kind), ("position", position.outline)]

/-- A sequence of statements. -/
def statements (nodes : List Outline) : Outline := .record "Block" [("nodes", .list nodes)]

mutual

def outline : Node → Outline
  | assignment target value p =>
    placed (.record "Assignment" [("target", target.outline), ("value", outline value)]) p
  | block nodes p => placed (.tuple "Block" [statements (outlines nodes)]) p
  | call receiver message args p =>
    placed (.record "Call" [("receiver", outline receiver), ("message", message.outline),
      ("args", .list (outlines args))]) p
  | definition name params body p =>
    placed (.record "Def" [("name", name.outline), ("params", .list (outlines params)),
      ("body", statements (outlines body))]) p
  | falseLiteral p => placed (.atom "False") p
  | identifier name p => placed (.tuple "Identifier" [name.outline]) p
  | conditional condition ifTrue ifFalse p =>
    placed (.record "If" [("condition", outline condition), ("if_true", outline ifTrue),
      ("if_false", outline ifFalse)]) p
  | implicitSelf p => placed (.atom "ImplicitSelf") p
  | literal value p => placed (.tuple "Literal" [value.outline]) p
  | nilLiteral p => placed (.atom "Nil") p
  | string value p => placed (.tuple "String" [value.outline]) p
  | symbol value p => placed (.tuple "Symbol" [value.outline]) p
  | trueLiteral p => placed (.atom "True") p

def outlines : List Node → List Outline
  | [] => []
  | node :: rest => outline node :: outlines rest

end

end Node

def SyntaxError.outline (error : SyntaxError) : Outline :=
  .record "SyntaxError" [("message", .text error.message), ("position", error.position.outline),
    ("token", .option (error.token.map .text))]

def Fault.outline : Fault → Outline
  | unexpectedNode expected found position =>
    .record "UnexpectedNode" [("expected", .atom expected.label), ("found", .atom found.label),
      ("position", position.outline)]
  | misroutedToken rule kind position =>
    .record "MisroutedToken" [("handler", .text rule.text), ("token_type", .atom kind.label),
      ("position", position.outline)]

def ParseError.outline : ParseError → Outline
  | malformed error => .tuple "Syntax" [error.outline]
  | internal fault => .tuple "Internal" [fault.outline]

end RubyReader
