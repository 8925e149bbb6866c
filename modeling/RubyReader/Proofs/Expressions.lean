/-
# `Expressions` — the reader implements the grammar of expressions

The tokens of every expression of the stratified grammar are read as the one
statement that is its tree, or refused because too many expressions are nested
in each other, and fifty are not too many (`program_phrase`).
-/
import Mathlib
import RubyReader.Proofs.Grammar.Climbing
import RubyReader.Proofs.Reading.Limit
import RubyReader.Proofs.Reading.Program

namespace RubyReader

/-! ## Where an expression stands -/

namespace Phrase

theorem terminal_ne_eof {kind : TokenKind} (token : Terminal kind) (h : kind ≠ .eof) :
    token.1.kind ≠ .eof := by
  rwa [token.2]

theorem ne_eof {category : Category} {split : Bool} (x : Phrase category split) :
    ∀ t ∈ x.tokens, t.kind ≠ .eof := by
  induction x with
  | operation operator _ token _ left right =>
      simp only [tokens, List.forall_mem_append, List.forall_mem_cons]
      exact ⟨left, terminal_ne_eof token operator.ne_eof, right⟩
  | number _ _ inRange => simpa [tokens] using Token.ne_eof_of_numeral inRange
  | digits _ _ _ inRange => simpa [tokens] using Token.ne_eof_of_numeral inRange
  | tighter _ _ inner => exact inner
  | _ =>
      simp only [tokens, List.forall_mem_append, List.forall_mem_cons]
      simp_all [terminal_ne_eof]

/-- The parser at the first token of an expression, with or without an end of the
input behind its tokens. -/
def parser (e : Phrase (.level .expression) false) (ending : Option Position)
    (locals symbols : Names) : Parser :=
  .ofTokens (e.tokens ++ (ending.map Token.endOfInput).toList) locals symbols

end Phrase

variable (e : Phrase (.level .expression) false) (ending : Option Position)
  (locals symbols : Names)

theorem Phrase.stands :
    ∃ last, last.kind = .eof ∧
      (e.parser ending locals symbols).Stands (e.tokens ++ [last]) locals 0 := by
  cases ending with
  | none =>
      obtain ⟨more, starts⟩ := e.tokens_eq_first
      obtain nil | ⟨front, last, all⟩ := List.eq_nil_or_concat e.tokens
      · rw [starts] at nil
        cases nil
      rw [List.concat_eq_append] at all
      have goesOn : last.kind ≠ .eof := e.ne_eof last (by simp [all])
      obtain ⟨ending, upcoming, ends⟩ := Cursor.upcoming_ofTokens_open goesOn
      rw [← all] at upcoming
      refine ⟨ending, ends, ?_, rfl, rfl⟩
      rw [← upcoming, parser, Option.map_none, Option.toList_none, List.append_nil]
      rfl
  | some position =>
      exact ⟨.endOfInput position, rfl, Cursor.upcoming_ofTokens rfl, rfl, rfl⟩

/-- Read with enough room, a phrase is the only statement. -/
theorem Phrase.reads_statements {limit : Option Nat} (room : Room limit (5 * (e.nesting + 1)))
    {p : Parser} {last : Token} (ends : last.kind = .eof)
    (stands : p.Stands (e.tokens ++ [last]) locals 0) :
    ∃ q, Reads limit (.statements .eof) p [(e.tree locals).1] q ∧ q.scope = (e.tree locals).2 := by
  obtain ⟨⟨form, leads⟩, q, reads, behind⟩ := Climbs.whole (e.climbs limit) stands
    (.separator ⟨last, ends⟩ (.inr (.inr (.inr rfl)))) (room.mono (by omega))
  have same : p.skipLines = p := skipLines_of_leads leads
  have same' : q.skipLines = q := behind.lines (by simp [ends])
  have atEnd : q.token.kind = .eof := by rw [behind.token_eq, ends]
  have noEnd : p.skipLines.token.kind ≠ .eof := by
    intro eof
    rw [same] at eof
    rw [eof] at leads
    cases leads
  refine ⟨q, ?_, behind.scope_eq⟩
  refine .statement noEnd noEnd (by rwa [same]) (.inr (.inl atEnd)) ?_
  have none : Reads limit (.statements .eof) q [] q.skipLines :=
    .noStatement (.inr (by rw [same', atEnd]))
  rw [same'] at none ⊢
  exact none

/-- An expression is read as its own tree, or refused for its nesting, and it is
never refused with at most fifty expressions inside each other. -/
theorem program_phrase :
    ((∃ q, (e.parser ending locals symbols).program
            = (.ok (.block [(e.tree locals).1] e.first.position), q) ∧
          q.scope = (e.tree locals).2) ∨
        Refused (e.parser ending locals symbols).program) ∧
      (e.nesting ≤ 50 → ∃ q, (e.parser ending locals symbols).program
        = (.ok (.block [(e.tree locals).1] e.first.position), q)) := by
  obtain ⟨last, ends, stands⟩ := e.stands ending locals symbols
  have place : e.first.position = (e.parser ending locals symbols).token.position := by
    obtain ⟨more, starts⟩ := e.tokens_eq_first
    rw [starts] at stands
    rw [stands.token_eq]
  rw [place]
  refine ⟨?_, fun shallow => ?_⟩
  · have room : Room none (5 * (e.nesting + 1)) := nofun
    obtain ⟨q, reads, scope_eq⟩ := e.reads_statements locals room ends stands
    have free := Parser.read_eq_ok_iff.mpr reads
    rcases Parser.read_limited (some nestingLimit) (.statements .eof)
        (e.parser ending locals symbols) with same | refused
    · have within := Parser.read_eq_ok_iff.mp (same.symm.trans free)
      exact .inl ⟨q, Parser.program_eq_ok_iff.mpr ⟨_, rfl, within⟩, scope_eq⟩
    · exact .inr (Parser.refused_program refused)
  · have room : Room (some nestingLimit) (5 * (e.nesting + 1)) := by
      intro most mem
      obtain rfl := Option.some.inj mem
      rw [nestingLimit]
      omega
    obtain ⟨q, reads, _⟩ := e.reads_statements locals room ends stands
    exact ⟨q, Parser.program_eq_ok_iff.mpr ⟨_, rfl, reads⟩⟩

/-- The difference `1 -2`, a signed number behind its left operand. -/
theorem program_phrase_of_difference :
    ∃ e : Phrase (.level .expression) false,
      e.tokens ++ [.endOfInput ⟨1, 5⟩] = (lex "1 -2").tokens ∧ e.nesting ≤ 50 ∧
        ∃ q, (e.parser none .empty .empty).program
          = (.ok (.block [(e.tree .empty).1] e.first.position), q) := by
  let one : Phrase (.level .product) false :=
    .tighter (by decide) (.tighter (by decide)
      (.number ⟨.integer, "1", ⟨1, 1⟩, false⟩ (.int 1) (by cbv)))
  let two : Phrase (.level .product) true :=
    .tighter (by decide) (.tighter (by decide)
      (.digits ⟨.integer, "-2", ⟨1, 3⟩, true⟩ (.int 2) rfl (by cbv)))
  let difference : Phrase (.level .expression) false :=
    .tighter (by decide) (.tighter (by decide) (.tighter (by decide) (.tighter (by decide)
      (.signed (.tighter (by decide) one) two))))
  exact ⟨difference, by cbv, by decide,
    (program_phrase difference none .empty .empty).2 (by decide)⟩

end RubyReader
