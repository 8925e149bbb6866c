/-
# `TokenKind` — the vocabulary

Twenty-nine kinds of token.  Each has a label, its name in listings of
tokens, and a description, its name in messages.  Nine of them are binary
operators and carry the name of the message that they send.
-/
namespace RubyReader

/-- What a token is. -/
inductive TokenKind where
  | integer
  | float
  | string
  | symbol
  | kwTrue
  | kwFalse
  | kwNil
  | identifier
  | kwDef
  | kwEnd
  | plus
  | minus
  | times
  | divide
  | assign
  | equal
  | less
  | lessEqual
  | greater
  | greaterEqual
  | lparen
  | rparen
  | comma
  | dot
  | question
  | colon
  /-- a newline or a semicolon: the end of a statement -/
  | newline
  /-- text that is no token; no lexer hands it on -/
  | invalid
  /-- the end of the input -/
  | eof
deriving DecidableEq

namespace TokenKind

def all : List TokenKind :=
  [integer, float, string, symbol, kwTrue, kwFalse, kwNil, identifier, kwDef, kwEnd,
   plus, minus, times, divide, assign, equal, less, lessEqual, greater, greaterEqual,
   lparen, rparen, comma, dot, question, colon, newline, invalid, eof]

def label : TokenKind → String
  | integer => "Integer"
  | float => "Float"
  | string => "String"
  | symbol => "Symbol"
  | kwTrue => "True"
  | kwFalse => "False"
  | kwNil => "Nil"
  | identifier => "Identifier"
  | kwDef => "Def"
  | kwEnd => "End"
  | plus => "Plus"
  | minus => "Minus"
  | times => "Multiply"
  | divide => "Divide"
  | assign => "Equal"
  | equal => "EqualEqual"
  | less => "LessThan"
  | lessEqual => "LessThanOrEqual"
  | greater => "GreaterThan"
  | greaterEqual => "GreaterThanOrEqual"
  | lparen => "LParen"
  | rparen => "RParen"
  | comma => "Comma"
  | dot => "Dot"
  | question => "TernaryQuestion"
  | colon => "TernaryColon"
  | newline => "Eol"
  | invalid => "Error"
  | eof => "Eof"

def ofLabel? (name : String) : Option TokenKind := all.find? fun kind => kind.label == name

def description : TokenKind → String
  | integer => "integer"
  | float => "float"
  | string => "string"
  | symbol => "symbol"
  | kwTrue => "`true`"
  | kwFalse => "`false`"
  | kwNil => "`nil`"
  | identifier => "identifier"
  | kwDef => "`def`"
  | kwEnd => "`end`"
  | plus => "`+`"
  | minus => "`-`"
  | times => "`*`"
  | divide => "`/`"
  | assign => "`=`"
  | equal => "`==`"
  | less => "`<`"
  | lessEqual => "`<=`"
  | greater => "`>`"
  | greaterEqual => "`>=`"
  | lparen => "`(`"
  | rparen => "`)`"
  | comma => "`,`"
  | dot => "`.`"
  | question => "`?`"
  | colon => "`:`"
  | newline => "end-of-line"
  | invalid => "invalid token"
  | eof => "end-of-input"

/-- The message that a binary operator sends to its left operand. -/
def operator? : TokenKind → Option String
  | plus => some "+"
  | minus => some "-"
  | times => some "*"
  | divide => some "/"
  | equal => some "=="
  | less => some "<"
  | lessEqual => some "<="
  | greater => some ">"
  | greaterEqual => some ">="
  | _ => none

/-- Numbers are the kinds that may carry a sign. -/
def isNumber : TokenKind → Bool
  | integer | float => true
  | _ => false

/-- The words that are no identifiers. -/
def keyword? : String → Option TokenKind
  | "true" => some kwTrue
  | "false" => some kwFalse
  | "nil" => some kwNil
  | "def" => some kwDef
  | "end" => some kwEnd
  | _ => none

end TokenKind
end RubyReader
