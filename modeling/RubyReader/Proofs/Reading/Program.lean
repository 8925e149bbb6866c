/-
# `Program` — the tokens of a text, and the statements of a program

A program is read if its statements are, up to the end of the input.  The
tokens of a text end the input, so that nothing is added to them.
-/
import RubyReader.Session
import RubyReader.Proofs.Reading.Invariants
import RubyReader.Proofs.Token.Lexing

namespace RubyReader

/-- Tokens that end the input need no further end. -/
theorem Cursor.completed_of_ends {token last : Token} {tokens rest : List Token}
    (ends : last.kind = .eof) (e : token :: rest = tokens ++ [last]) :
    completed token rest = rest := by
  induction rest generalizing token tokens with
  | nil =>
      have last_eq : token = last := by
        have := congrArg List.getLast? e
        simpa using this
      simp [completed, last_eq, Token.isEof, ends]
  | cons next rest ih =>
      cases tokens with
      | nil => simp at e
      | cons first tokens => rw [completed, ih (List.cons.inj e).2]

theorem Cursor.upcoming_ofTokens {tokens : List Token} {last : Token} (ends : last.kind = .eof) :
    (Cursor.ofTokens (tokens ++ [last])).upcoming = tokens ++ [last] := by
  cases e : tokens ++ [last] with
  | nil => simp at e
  | cons token rest => exact congrArg (token :: ·) (completed_of_ends ends e.symm)

/-- Tokens that do not end the input are given an end. -/
theorem Cursor.completed_of_open {token last : Token} {tokens rest : List Token}
    (goesOn : last.kind ≠ .eof) (e : token :: rest = tokens ++ [last]) :
    ∃ ending, completed token rest = rest ++ [ending] ∧ ending.kind = .eof := by
  induction rest generalizing token tokens with
  | nil =>
      have last_eq : token = last := by
        have := congrArg List.getLast? e
        simpa using this
      exact ⟨.endOfInput token.position, by simp [completed, last_eq, Token.isEof, goesOn], rfl⟩
  | cons next rest ih =>
      cases tokens with
      | nil => simp at e
      | cons first tokens =>
          obtain ⟨ending, completes, ends⟩ := ih (List.cons.inj e).2
          exact ⟨ending, by rw [completed, completes, List.cons_append], ends⟩

/-- An end of the input is put behind tokens that have none. -/
theorem Cursor.upcoming_ofTokens_open {tokens : List Token} {last : Token}
    (goesOn : last.kind ≠ .eof) :
    ∃ ending, (ofTokens (tokens ++ [last])).upcoming = tokens ++ [last] ++ [ending] ∧
      ending.kind = .eof := by
  cases e : tokens ++ [last] with
  | nil => simp at e
  | cons token rest =>
      obtain ⟨ending, completes, ends⟩ := completed_of_open goesOn e.symm
      exact ⟨ending, congrArg (token :: ·) completes, ends⟩

theorem Cursor.before_ofTokens {tokens : List Token} : (Cursor.ofTokens tokens).before = [] := by
  cases tokens <;> rfl

/-- Of the tokens that a cursor is made of none is lost, and none is added but an end of the
input. -/
theorem Cursor.exists_tokens_ofTokens (tokens : List Token) :
    ∃ ending, (ofTokens tokens).tokens = tokens ++ ending ∧ ∀ t ∈ ending, t.kind = .eof := by
  rw [Cursor.tokens_eq, before_ofTokens]
  rcases List.eq_nil_or_concat tokens with rfl | ⟨front, last, rfl⟩
  · exact ⟨[.endOfInput .start], rfl, by simp⟩
  · rw [List.concat_eq_append]
    by_cases ends : last.kind = .eof
    · exact ⟨[], by rw [upcoming_ofTokens ends, List.append_nil]; rfl, by simp⟩
    · obtain ⟨ending, upcoming, eof⟩ := @upcoming_ofTokens_open front last ends
      exact ⟨[ending], by rw [upcoming]; rfl, by simpa using eof⟩

theorem Cursor.previous_ofTokens {tokens : List Token} : (ofTokens tokens).previous? = none := by
  rw [previous?, before_ofTokens, List.head?_nil]

theorem upcoming_lex (text : String) :
    (Cursor.ofTokens (lex text).tokens).upcoming = (lex text).tokens := by
  obtain ⟨tokens, last, all, ends, _⟩ := Lexer.lex_tokens_ends text
  rw [all, Cursor.upcoming_ofTokens ends]

@[simp] theorem tokens_lex (text : String) :
    (Cursor.ofTokens (lex text).tokens).tokens = (lex text).tokens := by
  rw [Cursor.tokens_eq, Cursor.before_ofTokens, upcoming_lex]
  rfl

theorem Reads.after_eq_nil {limit : Option Nat} {text : String} {scope symbols : Names}
    {nodes : List Node} {q : Parser}
    (h : Reads limit (.statements .eof) (.ofTokens (lex text).tokens scope symbols) nodes q) :
    q.cursor.after = [] := by
  obtain ⟨tokens, last, all, ends, only⟩ := Lexer.lex_tokens_ends text
  have same : q.cursor.tokens = tokens ++ [last] := by
    rw [h.tokens_eq, ← all]
    exact tokens_lex text
  refine Cursor.after_of_eof same only ?_
  rcases h.statements_end with eof | eof <;> exact eof

theorem exists_of_isOk {ε α σ : Type} (outcome : Except ε α × σ) (h : outcome.1.isOk = true) :
    ∃ a q, outcome = (.ok a, q) := by
  obtain ⟨result, q⟩ := outcome
  cases result with
  | error e => cases h
  | ok a => exact ⟨a, q, rfl⟩

namespace Parser

/-- A program is a block of the statements up to the end of the input. -/
theorem program_eq_ok_iff {p q : Parser} {node : Node} :
    p.program = (.ok node, q) ↔
      ∃ nodes, node = .block nodes p.token.position ∧
        Reads (some nestingLimit) (.statements .eof) p nodes q := by
  unfold program programWithin
  split
  · rename_i nodes q' found
    simp only [Prod.mk.injEq, Except.ok.injEq]
    constructor
    · rintro ⟨rfl, rfl⟩
      exact ⟨nodes, rfl, read_eq_ok_iff.mp found⟩
    · rintro ⟨nodes', rfl, reads⟩
      obtain ⟨e, rfl⟩ := Prod.mk.inj (found.symm.trans (read_eq_ok_iff.mpr reads))
      cases e
      exact ⟨rfl, rfl⟩
  · rename_i error q' found
    simp only [Prod.mk.injEq, reduceCtorEq, false_and, false_iff]
    rintro ⟨nodes, rfl, reads⟩
    cases found.symm.trans (read_eq_ok_iff.mpr reads)

theorem program_eq_error_iff {p q : Parser} {error : ParseError} :
    p.program = (.error error, q) ↔
      p.read (some nestingLimit) (.statements .eof) = (.error error, q) := by
  unfold program programWithin
  split
  · rename_i nodes q' found
    simp [found]
  · rename_i error' q' found
    simp [found]

end Parser

/-- An input is read if it has no lexical error and its tokens are a program. -/
theorem Session.parse_eq_ok_iff {session after : Session} {text : String} {node : Node} :
    session.parse text = (.ok node, after) ↔
      (lex text).report.first? = none ∧
        ∃ q, (Parser.ofTokens (lex text).tokens session.locals session.symbols).program
            = (.ok node, q) ∧ after = ⟨q.symbols, q.scope⟩ := by
  unfold Session.parse
  simp only
  split
  · rename_i error found
    simp [found]
  · rename_i none
    split
    · rename_i node' q program
      simp only [none, program, Prod.mk.injEq, Except.ok.injEq, true_and]
      constructor
      · rintro ⟨rfl, rfl⟩
        exact ⟨q, ⟨rfl, rfl⟩, rfl⟩
      · rintro ⟨q, ⟨rfl, rfl⟩, rfl⟩
        exact ⟨rfl, rfl⟩
    · rename_i error q program
      simp [program]

/-- An input that fails leaves the variables as they were. -/
theorem Session.locals_of_error {session after : Session} {text : String} {error : ParseError}
    (h : session.parse text = (.error error, after)) : after.locals = session.locals := by
  unfold Session.parse at h
  simp only at h
  split at h
  · rw [← (Prod.mk.inj h).2]
  · split at h
    · cases (Prod.mk.inj h).1
    · rw [← (Prod.mk.inj h).2]

end RubyReader
