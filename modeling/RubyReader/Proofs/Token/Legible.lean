/-
# `Legible` — what the tokens of a text hold

A parser takes the text of a token as it is.  That the text of a name is one as a whole,
and that a number starts with a digit behind its sign, is what reading the text has seen to
(`legible_of_mem_lex`).
-/
import RubyReader.Proofs.Number.Written
import RubyReader.Proofs.Token.Boundaries
import RubyReader.Proofs.Tree.WellFormed

namespace RubyReader

open Grammar (splitFirst)
open Lexer (Alone)

/-- A token whose text is what its kind promises. -/
structure Token.Legible (token : Token) : Prop where
  name : token.kind = .identifier → IsName token.literal
  number : ∀ value, token.numeral? token.literal = some value → value.IsNumber
  /-- the first character of a signed number is an operator, and the others are a number -/
  signed : token.signed = true →
    (∃ kind, TokenKind.ofOperator? (splitFirst token.literal).1 = some kind) ∧
      ∀ value, token.numeral? (splitFirst token.literal).2 = some value → value.IsNumber

/-! ## Numbers -/

theorem splitSign_ofList {d : Char} (digit : d.isDigit = true) (more : List Char) :
    splitSign (String.ofList (d :: more)).toList = (false, d :: more) :=
  (congrArg splitSign String.toList_ofList).trans (splitSign_of_digit digit more)

theorem Token.isNumber_of_numeral {token : Token} {text : String} {d : Char} {more : List Char}
    {negative : Bool} (isDigit : d.isDigit = true)
    (split : splitSign text.toList = (negative, d :: more)) {value : Value}
    (written : token.numeral? text = some value) : value.IsNumber := by
  rcases kind_of_numeral written with integer | float
  · rw [numeral?_of_integer integer] at written
    obtain ⟨n, -, rfl⟩ := Option.map_eq_some_iff.mp written
    trivial
  · rw [numeral?_of_float float] at written
    obtain ⟨x, read, rfl⟩ := Option.map_eq_some_iff.mp written
    exact isNaN_of_readFloat? isDigit split read

theorem Lexer.digit_of_alone {lexeme : Lexeme} {kind : TokenKind} (alone : Alone lexeme)
    (cls : lexeme.cls = .token kind) (number : kind.isNumber = true) :
    lexeme.first.isDigit = true ∨ (lexeme.first = '+' ∨ lexeme.first = '-') ∧
      ∃ d more, lexeme.rest = d :: more ∧ d.isDigit = true := by
  have found : (classify lexeme.first lexeme.rest).1 = .token kind :=
    (congrArg Prod.fst alone).trans cls
  have first : (lexeme.first.isDigit || lexeme.first = '+' || lexeme.first = '-') = true := by
    have begin := begins_of_classify found
    cases kind <;> first | exact begin | cases number
  -- a sign alone is an operator
  have behind (operator : TokenKind) (other : operator.isNumber = false)
      (h : (signTail operator lexeme.rest).1 = kind) :
      ∃ d more, lexeme.rest = d :: more ∧ d.isDigit = true := by
    unfold signTail at h
    split at h
    · rename_i d more e
      refine ⟨d, more, e, ?_⟩
      by_contra noDigit
      rw [if_neg noDigit] at h
      rw [← h, other] at number
      cases number
    · rw [← h, other] at number
      cases number
  simp only [Bool.or_eq_true, decide_eq_true_eq] at first
  rcases first with (digit | plus) | minus
  · exact .inl digit
  · rw [plus] at found
    exact .inr ⟨.inl plus, behind .plus rfl (LexemeClass.token.inj found)⟩
  · rw [minus] at found
    exact .inr ⟨.inr minus, behind .minus rfl (LexemeClass.token.inj found)⟩

/-! ## Tokens -/

section

variable {kind : TokenKind} {d : Char} {more : List Char} (number : kind.isNumber = true)
  (digit : d.isDigit = true) (position : Position)

include number digit

theorem Token.legible_of_digit :
    (Token.new kind (String.ofList (d :: more)) position).Legible where
  name := by
    rintro rfl
    cases number
  number _ written := isNumber_of_numeral digit (splitSign_ofList digit more) written
  signed signed := by
    simp only [Token.new, startsWithSign, String.toList_ofList, number, Bool.true_and,
      Bool.or_eq_true, decide_eq_true_eq] at signed
    rcases signed with rfl | rfl <;> cases digit

theorem Token.legible_of_sign {sign : Char} (isSign : sign = '+' ∨ sign = '-') :
    (Token.new kind (String.ofList (sign :: d :: more)) position).Legible where
  name := by
    rintro rfl
    cases number
  number value written := by
    have split : splitSign (String.ofList (sign :: d :: more)).toList
        = (decide (sign = '-'), d :: more) := by
      refine (congrArg splitSign String.toList_ofList).trans ?_
      rcases isSign with rfl | rfl <;> rfl
    exact isNumber_of_numeral digit split written
  signed _ := by
    have parts : splitFirst (Token.new kind (String.ofList (sign :: d :: more)) position).literal
        = (String.singleton sign, String.ofList (d :: more)) := by
      simp only [Token.new, splitFirst, String.toList_ofList]
    rw [parts]
    refine ⟨?_, fun value written => ?_⟩
    · rcases isSign with rfl | rfl
      · exact ⟨.plus, by dsimp only; decide⟩
      · exact ⟨.minus, by dsimp only; decide⟩
    · exact isNumber_of_numeral digit (splitSign_ofList digit more) written

end

/-- A lexeme that is a token makes a legible one. -/
theorem Lexer.legible_of_alone {lexeme : Lexeme} {kind : TokenKind} (alone : Alone lexeme)
    (cls : lexeme.cls = .token kind) (position : Position) :
    (Token.new kind (content kind lexeme) position).Legible := by
  cases number : kind.isNumber with
  | true =>
      have text : content kind lexeme = String.ofList (lexeme.first :: lexeme.rest) := by
        cases kind <;> first | rfl | cases number
      rw [text]
      rcases digit_of_alone alone cls number with digit | ⟨sign, d, more, rest, digit⟩
      · exact Token.legible_of_digit number digit position
      · rw [rest]
        exact Token.legible_of_sign number digit position sign
  | false =>
      have noValue (text : String) :
          (Token.new kind (content kind lexeme) position).numeral? text = none := by
        apply Token.numeral?_of_other <;> · rintro rfl; cases number
      refine ⟨?_, fun value written => ?_, fun signed => ?_⟩
      · rintro rfl
        refine ⟨lexeme.first, lexeme.rest, ?_, alone.trans (by rw [cls])⟩
        exact String.toList_ofList
      · rw [noValue] at written
        cases written
      · simp [Token.new, number] at signed

theorem legible_of_mem_lex {text : String} {token : Token} (mem : token ∈ (lex text).tokens) :
    token.Legible := by
  rw [Lexer.lex_tokens_eq, List.mem_append] at mem
  rcases mem with mem | mem
  · obtain ⟨lexeme, among, kind, position, cls, rfl⟩ := Lexer.exists_lexeme mem
    exact Lexer.legible_of_alone (Lexer.alone_of_mem among) cls position
  · obtain rfl := List.mem_singleton.mp mem
    exact ⟨nofun, (fun _ written => nomatch written), nofun⟩

end RubyReader
