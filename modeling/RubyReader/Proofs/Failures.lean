/-
# `Failures` — a failure is decided by what has been read

A program that fails leaves the cursor at some token.  Any tokens that are the same up to
that one fail with the same error, at the same place, and leave the same variables behind:
nothing that stands further on has been looked at.  And an error of the input blames the
token there; only a signed number that cannot be held is blamed from behind, by the call
that goes on with it (`program_failed`).
-/
import Mathlib
import RubyReader.Proofs.Reading.Raises
import RubyReader.Proofs.Reading.Steps

namespace RubyReader

/-! ## Signed numbers that cannot be held -/

namespace Grammar

open Routine

variable {nested : Reader} {p q : Parser} {e : ParseError}

theorem raises_numeral {token : Token} {text : String} (number : token.kind.isNumber = true)
    (raises : (numeral token text).Raises nested p e q) :
    e = .malformed (.blame (.outOfRange token) token) ∧ q = p := by
  have worked {found : Option Value}
      (raises : (numeral.orOutOfRange token found).Raises nested p e q) :
      e = .malformed (.blame (.outOfRange token) token) ∧ q = p := by
    cases found with
    | none => exact raises
    | some value => exact raises.elim
  unfold numeral at raises
  split at raises
  · exact worked raises
  · exact worked raises
  · rename_i noInteger noFloat
    cases kind : token.kind <;> simp_all [TokenKind.isNumber]

/-- The continuation by a signed number fails by itself right behind the number. -/
theorem raises_signedNumber {left : Node} (signed : p.token.signed = true)
    (number : p.token.kind.isNumber = true) (raises : (signedNumber left).Raises nested p e q) :
    e = .malformed (.blame (.outOfRange p.token) p.token) ∧ q = p.advance := by
  unfold signedNumber at raises
  rw [raises_take, if_pos signed, raises_bind] at raises
  rcases raises with failed | ⟨value, p', -, rest⟩
  · exact raises_numeral number failed
  · obtain ⟨right, p'', -, none⟩ := rest
    exact none.elim

end Grammar

/-! ## The token that is blamed -/

/-- A call goes on with a signed number, and a cursor stands behind that. -/
structure Call.Signed (call : Call) (c : Cursor) : Prop where
  goal_eq : ∃ left, call.goal = .following .signedNumber left
  signed : call.parser.token.signed = true
  cursor_eq : call.parser.cursor.advance = c
  noEnd : call.parser.token.kind ≠ .eof

/-- A call that fails by itself blames the token where it stops, or the signed number that
it goes on with. -/
theorem Call.Fails.blames {limit : Option Nat} {call : Call} {error : SyntaxError} {c : Cursor}
    (fails : call.Fails limit (.malformed error) c)
    (starts : call.goal.Starts call.parser.cursor) :
    (∃ cause, error = .blame cause c.current) ∨
      call.Signed c ∧ error = .blame (.outOfRange call.parser.token) call.parser.token := by
  have goalFails := fails.fails starts
  obtain ⟨goal, p, around⟩ := call
  cases goalFails with
  | current => exact .inl ⟨_, rfl⟩
  | outOfRange before signed number =>
      obtain ⟨follows, tighter⟩ := starts
      have number := TokenKind.isNumber_of_following follows
      have signed : p.token.signed = true := Token.signed_of_precedence number tighter
      rcases fails with ⟨refused, -⟩ | ⟨q, raises, rfl⟩
      · cases refused
      · obtain ⟨e, rfl⟩ := Grammar.raises_signedNumber signed number raises
        exact .inr ⟨⟨⟨_, rfl⟩, signed, rfl, TokenKind.ne_eof_of_following follows⟩,
          ParseError.malformed.inj e⟩

namespace Parser

variable {tokens : List Token} {scope symbols : Names} {error : ParseError} {q : Parser}

/-- Tokens that are the same up to where a program fails fail in the same way. -/
theorem program_failed_again {tokens' : List Token}
    (failed : (ofTokens tokens scope symbols).program = (.error error, q))
    (same : (Cursor.ofTokens tokens').tokens.take (q.cursor.index + 1)
      = (Cursor.ofTokens tokens).tokens.take (q.cursor.index + 1)) :
    ∃ q', (ofTokens tokens' scope symbols).program = (.error error, q') ∧
      q.Agree q.cursor.index q' := by
  have found := program_eq_error_iff.mp failed
  obtain ⟨q', found', agree⟩ := read_agree (Goal.starts_statements .eof _) found (Nat.le_refl _)
    (agree_ofTokens scope symbols same)
  exact ⟨q', program_eq_error_iff.mpr found', agree⟩

/-- A program that fails because of its input blames the token where it stops, or the
signed number before it. -/
theorem program_blames {malformed : SyntaxError}
    (failed : (ofTokens tokens scope symbols).program = (.error (.malformed malformed), q)) :
    (∃ cause, malformed = .blame cause q.token) ∨
      ∃ call ∈ (ofTokens tokens scope symbols).calls (some nestingLimit) (.statements .eof),
        call.Signed q.cursor ∧
          malformed = .blame (.outOfRange call.parser.token) call.parser.token := by
  obtain ⟨call, mem, leads, starts, fails⟩ :=
    exists_failing_call (Goal.starts_statements .eof _) (program_eq_error_iff.mp failed)
  rcases fails.blames starts with here | ⟨signed, e⟩
  · exact .inl here
  · exact .inr ⟨call, mem, signed, e⟩

/-- What a program that fails has read decides how it fails: tokens that are the same up to
the one where it stops fail with the same error at the same index, with the same variables.
An error of the input has the place and the text of that token, or if it is a signed number
that cannot be held and that a call goes on with, of the token before it. -/
theorem program_failed
    (failed : (ofTokens tokens scope symbols).program = (.error error, q)) :
    let all := (Cursor.ofTokens tokens).tokens
    (∀ tokens', (Cursor.ofTokens tokens').tokens.take (q.cursor.index + 1)
        = all.take (q.cursor.index + 1) →
      ∃ q', (ofTokens tokens' scope symbols).program = (.error error, q') ∧
        q'.cursor.index = q.cursor.index ∧ q'.scope = q.scope ∧ q'.symbols = q.symbols) ∧
    ∀ malformed, error = .malformed malformed →
      ∃ token, malformed.position = token.position ∧ malformed.token = some token.literal ∧
        (all[q.cursor.index]? = some token ∨
          malformed.cause = .outOfRange token ∧ token.signed = true ∧
          ∃ call ∈ (ofTokens tokens scope symbols).calls (some nestingLimit) (.statements .eof),
            (∃ left, call.goal = .following .signedNumber left) ∧
            call.parser.cursor.index + 1 = q.cursor.index ∧
            all[call.parser.cursor.index]? = some token) := by
  intro all
  refine ⟨?_, ?_⟩
  · intro tokens' same
    obtain ⟨q', failed', agree⟩ := program_failed_again failed same
    exact ⟨q', failed', agree.cursor.index_eq, agree.scope_eq, agree.symbols_eq⟩
  · rintro malformed rfl
    have onward : (Cursor.ofTokens tokens).Onward q.cursor := by
      have onward := read_onward (p := ofTokens tokens scope symbols) (some nestingLimit)
        (Goal.starts_statements .eof _)
      rwa [program_eq_error_iff.mp failed] at onward
    have all_eq : q.cursor.tokens = all := onward.tokens_eq
    rcases program_blames failed with ⟨cause, rfl⟩ | ⟨call, mem, signed, rfl⟩
    · refine ⟨q.token, rfl, rfl, .inl ?_⟩
      rw [← all_eq]
      exact q.cursor.getElem?_index
    · refine ⟨call.parser.token, rfl, rfl, .inr ⟨rfl, signed.signed, call, mem, signed.goal_eq,
        ?_, ?_⟩⟩
      · rw [← signed.cursor_eq]
        exact (Cursor.index_advance signed.noEnd).symm
      · rw [← all_eq, ← signed.cursor_eq, Cursor.tokens_advance]
        exact call.parser.cursor.getElem?_index

/-- The tokens of `1 -99999999999999999999` and a line end, with others behind them. -/
def hugeDifference (rest : List Token) : List Token :=
  ⟨.integer, "1", ⟨1, 1⟩, false⟩ :: ⟨.integer, "-99999999999999999999", ⟨1, 3⟩, true⟩ ::
    ⟨.newline, "\n", ⟨1, 24⟩, false⟩ :: rest

/-- The number cannot be held.  A program stops behind it, at the line end, whatever comes
on the next line, and blames the number. -/
theorem program_failed_of_hugeDifference :
    let number : Token := ⟨.integer, "-99999999999999999999", ⟨1, 3⟩, true⟩
    let error := SyntaxError.blame (.outOfRange number) number
    ∃ q q', q.cursor.index = 2 ∧ q'.cursor.index = 2 ∧
      (ofTokens (hugeDifference [⟨.rparen, ")", ⟨2, 1⟩, false⟩]) .empty .empty).program
        = (.error (.malformed error), q) ∧
      (ofTokens (hugeDifference [⟨.identifier, "x", ⟨2, 1⟩, false⟩]) .empty .empty).program
        = (.error (.malformed error), q') ∧
      ∃ token : Token, error.position = token.position ∧ error.token = some token.literal := by
  intro number error
  obtain ⟨q, index, failed⟩ : ∃ q, q.cursor.index = 2 ∧
      (ofTokens (hugeDifference [⟨.rparen, ")", ⟨2, 1⟩, false⟩]) .empty .empty).program
        = (.error (.malformed error), q) := by
    refine ⟨_, ?_, Prod.ext (?_ : _ = Except.error (ParseError.malformed error)) rfl⟩
    · cbv
    · cbv
  obtain ⟨again, blames⟩ := program_failed failed
  rw [index] at again
  obtain ⟨q', failed', same, -⟩ := again (hugeDifference [⟨.identifier, "x", ⟨2, 1⟩, false⟩]) rfl
  obtain ⟨token, position, text, -⟩ := blames error rfl
  exact ⟨q, q', index, same, failed, failed', token, position, text⟩

end Parser

end RubyReader
