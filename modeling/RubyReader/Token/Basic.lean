/-
# `Token` — a word of the language, with its place

Strings and symbols hold their content, without quotes or colon.  A number
written with a sign keeps the sign in its text and is marked as signed.
-/
import RubyReader.Source.Position
import RubyReader.Text.Quoted
import RubyReader.Token.Kind

namespace RubyReader

/-- A token: its kind, its text, where it begins, whether it is a signed number. -/
structure Token where
  kind : TokenKind
  literal : String
  position : Position
  signed : Bool
deriving DecidableEq

namespace Token

/-- Whether a text begins with a sign. -/
def startsWithSign (text : String) : Bool :=
  match text.toList with
  | c :: _ => c = '+' || c = '-'
  | [] => false

/-- A token is signed when it is a number whose text begins with a sign. -/
def new (kind : TokenKind) (literal : String) (position : Position) : Token :=
  ⟨kind, literal, position, kind.isNumber && startsWithSign literal⟩

def endOfInput (position : Position) : Token := ⟨.eof, "", position, false⟩

def isEof (token : Token) : Bool := token.kind = .eof

def describe (token : Token) : String :=
  match token.kind with
  | .newline | .eof => token.kind.description
  | .string => "string " ++ Text.quoteListing token.literal
  | .symbol => "`:" ++ token.literal ++ "`"
  | _ => "`" ++ token.literal ++ "`"

@[simp] theorem kind_endOfInput (position : Position) : (endOfInput position).kind = .eof := rfl

end Token
end RubyReader
