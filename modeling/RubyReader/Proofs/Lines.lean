/-
# `Lines` — line breaks where more is owed do not matter

A program that is read is read again with line ends anywhere in front of it, behind operators,
opening parentheses, commas and line ends, and in front of closing parentheses and colons: as
the same tree, up to places, and with the same variables (`program_spread`).  Only between
parameters without parentheses a comma does not permit a break.
-/
import Mathlib
import RubyReader.Proofs.Reading.Program
import RubyReader.Proofs.Reading.Spreading

namespace RubyReader

namespace Spread

/-- In front of all tokens stands, as it were, the end of a line. -/
def lineStart : Token := ⟨.newline, "", .start, false⟩

theorem mayBreak_completed {before tokens : List Token} (h : MayBreak before tokens)
    (last : Token) : MayBreak before (Cursor.completed last tokens) := by
  cases h with
  | start => exact .start
  | owing owes => exact .owing owes
  | comma comma none => exact .comma comma none
  | closing closes => exact .closing closes

/-- Behind the last of all tokens a line may end only if it does not end the input. -/
theorem goesOn_of_mayBreak {before : List Token} (h : MayBreak before []) :
    (before.head?.getD lineStart).kind ≠ .eof := by
  cases h with
  | start => decide
  | @owing token _ _ owes =>
      rintro (eof : token.kind = .eof)
      rw [eof] at owes
      cases owes
  | @comma token _ _ comma _ =>
      rintro (eof : token.kind = .eof)
      cases comma.symm.trans eof

theorem completed {before tokens tokens' : List Token} (h : Spread before tokens tokens')
    {last' : Token}
    (same : tokens = [] → (last'.kind = .eof ↔ (before.head?.getD lineStart).kind = .eof)) :
    Spread before (Cursor.completed (before.head?.getD lineStart) tokens)
      (Cursor.completed last' tokens') := by
  induction h generalizing last' with
  | nil =>
      rw [Cursor.completed, Cursor.completed, Token.isEof, Token.isEof]
      simp only [same]
      split
      · exact .nil
      · exact .keep last'.position .nil
  | keep place _ ih => exact .keep place (ih fun _ => Iff.rfl)
  | @line before tokens _ line newline breaks _ ih =>
      refine .line newline (mayBreak_completed breaks _) (ih fun none => ?_)
      subst none
      simp [newline, goesOn_of_mayBreak breaks]

theorem upcoming_ofTokens {tokens tokens' : List Token} (h : Spread [] tokens tokens') :
    Spread [] (Cursor.ofTokens tokens).upcoming (Cursor.ofTokens tokens').upcoming := by
  have all (tokens : List Token) :
      (Cursor.ofTokens tokens).upcoming = Cursor.completed lineStart tokens := by
    cases tokens <;> rfl
  rw [all, all]
  exact h.completed fun _ => Iff.rfl

end Spread

variable {tokens tokens' : List Token} {scope symbols symbols' : Names} {node : Node} {q : Parser}

theorem Beside.ofTokens (spread : Spread [] tokens tokens') :
    Beside .spread (.ofTokens tokens scope symbols) (.ofTokens tokens' scope symbols') := by
  refine ⟨?_, rfl, Nat.le_refl 0⟩
  have before : (Parser.ofTokens tokens scope symbols).cursor.before = [] := Cursor.before_ofTokens
  rw [before]
  exact spread.upcoming_ofTokens.respelled

/-- On more lines a program is read as the same tree, up to places, and declares the same
variables. -/
theorem program_spread (spread : Spread [] tokens tokens')
    (accepted : (Parser.ofTokens tokens scope symbols).program = (.ok node, q)) :
    ∃ node' q', (Parser.ofTokens tokens' scope symbols').program = (.ok node', q') ∧
      node'.Alike node ∧ q'.scope = q.scope := by
  obtain ⟨nodes, rfl, reads⟩ := Parser.program_eq_ok_iff.mp accepted
  obtain ⟨nodes', q', reads', alike, behind⟩ :=
    reads.statements_spread (by decide) (Beside.ofTokens spread)
  exact ⟨_, q', Parser.program_eq_ok_iff.mpr ⟨nodes', rfl, reads'⟩, .block alike, behind.scope_eq⟩

/-- A conditional with a call as its condition, on seven lines. -/
theorem program_spread_of_conditional :
    ∃ node q, (Parser.ofTokens (lex "f(1, 2) ? 3 : 4").tokens .empty .empty).program
        = (.ok node, q) ∧
      Spread [] (lex "f(1, 2) ? 3 : 4").tokens (lex "\nf(\n1,\n2\n) ?\n3\n:\n4").tokens ∧
      ∃ node' q', (Parser.ofTokens (lex "\nf(\n1,\n2\n) ?\n3\n:\n4").tokens .empty .empty).program
          = (.ok node', q') ∧ node'.Alike node ∧ q'.scope = q.scope := by
  obtain ⟨node, q, accepted⟩ := exists_of_isOk
    ((Parser.ofTokens (lex "f(1, 2) ? 3 : 4").tokens .empty .empty).program) (by cbv)
  have tokens : (lex "f(1, 2) ? 3 : 4").tokens =
      [.new .identifier "f" ⟨1, 1⟩, .new .lparen "(" ⟨1, 2⟩, .new .integer "1" ⟨1, 3⟩,
        .new .comma "," ⟨1, 4⟩, .new .integer "2" ⟨1, 6⟩, .new .rparen ")" ⟨1, 7⟩,
        .new .question "?" ⟨1, 9⟩, .new .integer "3" ⟨1, 11⟩, .new .colon ":" ⟨1, 13⟩,
        .new .integer "4" ⟨1, 15⟩, .endOfInput ⟨1, 16⟩] := by
    cbv
  have tokens' : (lex "\nf(\n1,\n2\n) ?\n3\n:\n4").tokens =
      [.new .newline "\n" ⟨1, 1⟩, .new .identifier "f" ⟨2, 1⟩, .new .lparen "(" ⟨2, 2⟩,
        .new .newline "\n" ⟨2, 3⟩, .new .integer "1" ⟨3, 1⟩, .new .comma "," ⟨3, 2⟩,
        .new .newline "\n" ⟨3, 3⟩, .new .integer "2" ⟨4, 1⟩, .new .newline "\n" ⟨4, 2⟩,
        .new .rparen ")" ⟨5, 1⟩, .new .question "?" ⟨5, 3⟩, .new .newline "\n" ⟨5, 4⟩,
        .new .integer "3" ⟨6, 1⟩, .new .newline "\n" ⟨6, 2⟩, .new .colon ":" ⟨7, 1⟩,
        .new .newline "\n" ⟨7, 2⟩, .new .integer "4" ⟨8, 1⟩, .endOfInput ⟨8, 2⟩] := by
    cbv
  have spread : Spread [] (lex "f(1, 2) ? 3 : 4").tokens
      (lex "\nf(\n1,\n2\n) ?\n3\n:\n4").tokens := by
    rw [tokens, tokens']
    refine .line rfl .start <| .keep _ <| .keep _ <| .line rfl (.owing rfl) <| .keep _ <|
      .keep _ <| .line rfl (.comma rfl ?_) <| .keep _ <| .line rfl (.closing (.inl rfl)) <|
      .keep _ <| .keep _ <| .line rfl (.owing rfl) <| .keep _ <|
      .line rfl (.closing (.inr rfl)) <| .keep _ <| .line rfl (.owing rfl) <| .keep _ <|
      .keep _ .nil
    -- the comma stands behind a number, and not behind a parameter
    intro owes
    cases owes with
    | first _ name => cases name
    | further _ param _ => cases param
  exact ⟨node, q, accepted, spread, program_spread spread accepted⟩

end RubyReader
