/-
# `Sign` — signs and the digits behind them

A sign in front of digits is the first character of a signed number, so the text of the two
tokens is cut behind it again.
-/
import RubyReader.Grammar.Rules

namespace RubyReader

open Grammar (splitFirst)

namespace TokenKind

def sign? : TokenKind → Option String
  | plus => some "+"
  | minus => some "-"
  | _ => none

variable {kind : TokenKind} {text : String}

theorem sign_cases (h : kind.sign? = some text) :
    kind = .plus ∧ text = "+" ∨ kind = .minus ∧ text = "-" := by
  cases kind <;> simp_all [sign?]

theorem operator?_of_sign (h : kind.sign? = some text) : kind.operator? = some text := by
  rcases sign_cases h with ⟨rfl, rfl⟩ | ⟨rfl, rfl⟩ <;> rfl

theorem following?_of_operator {kind : TokenKind} {name : String}
    (h : kind.operator? = some name) : kind.following? = some .operator := by
  cases kind <;> simp_all [operator?, following?]

theorem number_cases (h : kind.isNumber = true) : kind = .integer ∨ kind = .float := by
  cases kind <;> simp_all [isNumber]

theorem leading?_of_number (h : kind.isNumber = true) : kind.leading? = some .number := by
  rcases number_cases h with rfl | rfl <;> rfl

theorem noSign_of_leading {form : LeadingForm} (h : kind.leading? = some form) :
    kind.sign? = none := by
  cases kind <;> simp_all [leading?, sign?]

end TokenKind

theorem Token.precedence_of_sign {token : Token} {text : String}
    (h : token.kind.sign? = some text) : token.precedence = .sum := by
  rcases TokenKind.sign_cases h with ⟨kind, -⟩ | ⟨kind, -⟩ <;> simp [precedence, kind]

theorem splitFirst_sign {kind : TokenKind} {text : String} (h : kind.sign? = some text)
    (digits : String) : splitFirst (text ++ digits) = (text, digits) := by
  rcases TokenKind.sign_cases h with ⟨-, rfl⟩ | ⟨-, rfl⟩
  · have chars : ("+" ++ digits).toList = '+' :: digits.toList := String.toList_append
    simp only [splitFirst, chars, String.ofList_toList]
    rfl
  · have chars : ("-" ++ digits).toList = '-' :: digits.toList := String.toList_append
    simp only [splitFirst, chars, String.ofList_toList]
    rfl

theorem startsWithSign_sign {kind : TokenKind} {text : String} (h : kind.sign? = some text)
    (digits : String) : Token.startsWithSign (text ++ digits) = true := by
  rcases TokenKind.sign_cases h with ⟨-, rfl⟩ | ⟨-, rfl⟩ <;> simp [Token.startsWithSign]

theorem signed_new {kind number : TokenKind} {text : String} (h : kind.sign? = some text)
    (isNumber : number.isNumber = true) (digits : String) (place : Position) :
    (Token.new number (text ++ digits) place).signed = true := by
  simp [Token.new, isNumber, startsWithSign_sign h]

end RubyReader
