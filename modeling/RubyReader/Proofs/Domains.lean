/-
# `Domains` — no operation is ever outside its domain

A text is read, written as a tagged list and shown, with every operation that has a domain
checked for it:

    lex?          quotes and colons cut off, positions of offsets
    program?      tokens by their index, signed numbers cut
    text?         zeros and points in numbers

There is no outcome as soon as one of them is outside.  Since there always is one, and the
same as without the checks, none ever is (`Session.parse_checked`).
-/
import RubyReader.Proofs.Checked.Lexing
import RubyReader.Proofs.Checked.Numbers
import RubyReader.Proofs.Checked.Reading
import RubyReader.Proofs.Reading.Program
import RubyReader.Session

namespace RubyReader

/-! ## Signs -/

theorem Token.beginsSigned_new (kind : TokenKind) (literal : String) (position : Position) :
    (new kind literal position).BeginsSigned :=
  fun signed => (Bool.and_eq_true_iff.mp signed).2

/-- The signed tokens of a text begin with their signs. -/
theorem beginsSigned_of_mem_lex {text : String} {token : Token}
    (mem : token ∈ (lex text).tokens) : token.BeginsSigned := by
  rw [Lexer.lex_tokens_eq, List.mem_append] at mem
  rcases mem with mem | mem
  · obtain ⟨lexeme, -, kind, position, -, rfl⟩ := Lexer.exists_lexeme mem
    exact Token.beginsSigned_new kind _ position
  · obtain rfl := List.mem_singleton.mp mem
    exact nofun

/-! ## Sessions -/

namespace Session

/-- Reads an input, within all domains. -/
def parse? (session : Session) (text : String) : Option (Except ParseError Node × Session) :=
  (lex? text).bind fun lexed =>
    match lexed.report.first? with
    | some error => some (.error (.malformed error), session)
    | none =>
      let parser := Parser.ofTokens lexed.tokens session.locals session.symbols
      parser.indexed.program?.map fun
        | (.ok node, s) => (.ok node, ⟨s.symbols, s.scope⟩)
        | (.error error, s) => (.error error, { session with symbols := s.symbols })

/-- Reads an input, writes it as a tagged list and shows this, within all domains. -/
def show? (session : Session) (text : String) : Option (Except ParseError String × Session) :=
  (session.parse? text).bind fun
    | (.ok node, after) =>
      match after.toSexp node with
      | (.ok value, last) => value.text?.map fun shown => (.ok shown, last)
      | (.error error, last) => some (.error error, last)
    | (.error error, after) => some (.error error, after)

/-- Reading leaves no domain. -/
theorem parse?_eq (session : Session) (text : String) :
    session.parse? text = some (session.parse text) := by
  have signs : ∀ token ∈ (Cursor.ofTokens (lex text).tokens).tokens, token.BeginsSigned := by
    rw [tokens_lex]
    exact fun _ => beginsSigned_of_mem_lex
  have program := Indexed.program?_eq
    (p := Parser.ofTokens (lex text).tokens session.locals session.symbols) signs
  rw [parse?, lex?_eq, Option.bind_some, parse]
  dsimp only
  cases (lex text).report.first? with
  | some error => rfl
  | none =>
      dsimp only
      rw [program]
      obtain ⟨result, q⟩ :=
        (Parser.ofTokens (lex text).tokens session.locals session.symbols).program
      cases result with
      | ok node => rfl
      | error error => rfl

/-- An input is read, written and shown without leaving any domain, in every session. -/
theorem parse_checked (session : Session) (text : String) :
    session.parse? text = some (session.parse text) ∧
      session.show? text = some
        ((session.parseToSexp text).1.map Value.text, (session.parseToSexp text).2) := by
  refine ⟨parse?_eq session text, ?_⟩
  rw [show?, parse?_eq, Option.bind_some, parseToSexp]
  obtain ⟨result, after⟩ := session.parse text
  cases result with
  | error error => rfl
  | ok node =>
      dsimp only
      obtain ⟨written, last⟩ := after.toSexp node
      cases written with
      | error error => rfl
      | ok value =>
          dsimp only
          rw [value.text?_eq]
          rfl

end Session

end RubyReader
