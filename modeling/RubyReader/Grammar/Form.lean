/-
# `Form` — which rule a token calls for

A leading form is an expression that starts with a token; a following form
continues an expression that has been read.

    leading     true false nil name ( 1 1.5 :s "s" def
    following   =   (   + - * / == < <= > >=   +1 -1   .   ?
-/
import RubyReader.Token.Precedence

namespace RubyReader

/-- The expressions that start with their own kind of token. -/
inductive LeadingForm where
  | boolean
  | nil
  | number
  | symbol
  | string
  | name
  | group
  | definition
deriving DecidableEq

/-- The ways to continue an expression. -/
inductive FollowingForm where
  | assignment
  | call
  | operator
  | signedNumber
  | send
  | ternary
deriving DecidableEq

/-- The leading form that a token starts. -/
def TokenKind.leading? : TokenKind → Option LeadingForm
  | kwTrue | kwFalse => some .boolean
  | kwNil => some .nil
  | integer | float => some .number
  | symbol => some .symbol
  | string => some .string
  | identifier => some .name
  | lparen => some .group
  | kwDef => some .definition
  | _ => none

/-- The following form that a token starts.  A colon has none: it only ever
ends the first branch of a conditional. -/
def TokenKind.following? : TokenKind → Option FollowingForm
  | assign => some .assignment
  | lparen => some .call
  | plus | minus | times | divide | equal | less | lessEqual | greater | greaterEqual =>
    some .operator
  | integer | float => some .signedNumber
  | dot => some .send
  | question => some .ternary
  | _ => none

/-- Whether a token can start the first argument of a call without
parentheses.  A signed number cannot, so `a -1` stays a subtraction. -/
def Token.beginsBareArgument (token : Token) : Bool :=
  match token.kind with
  | .identifier | .string | .symbol | .kwTrue | .kwFalse | .kwNil => true
  | .integer | .float => !token.signed
  | _ => false

end RubyReader
