/-
# `Relevance` — only relevant variables matter

Of the variables that a program begins with only those matter whose names it writes, and of
the symbols none.  From two scopes with the same relevant variables the same tree is read,
or the reading fails for the same reason at the same token; and behind the variables that
were there the same new ones are declared, in the same order (`program_of_relevant`).
-/
import Mathlib
import RubyReader.Proofs.Reading.Matching
import RubyReader.Proofs.Reading.Moments
import RubyReader.Proofs.Reading.Program

namespace RubyReader

theorem Cursor.eq_of_upcoming {c c' : Cursor} (tokens : c'.tokens = c.tokens)
    (upcoming : c'.upcoming = c.upcoming) : c' = c := by
  have before : c'.before = c.before := by
    rw [tokens_eq, tokens_eq, upcoming] at tokens
    exact List.reverse_inj.mp (List.append_cancel_right tokens)
  obtain ⟨_, _, _, _⟩ := c
  obtain ⟨_, _, _, _⟩ := c'
  obtain ⟨rfl, rfl⟩ := List.cons.inj upcoming
  cases before
  rfl

namespace Parser

variable {tokens : List Token} {scope scope' : Names}

/-- A text that some token has as its name. -/
def Written (tokens : List Token) (name : String) : Prop :=
  ∃ token ∈ tokens, token.kind = .identifier ∧ token.literal = name

/-- At the first of the same tokens, parsers match if their scopes have the same variables
among the names that are written. -/
theorem matching_ofTokens (limit : Option Nat) (symbols symbols' : Names)
    (same : ∀ token ∈ tokens, token.kind = .identifier →
      (token.literal ∈ scope' ↔ token.literal ∈ scope)) :
    (ofTokens tokens scope symbols).Matching limit (Written tokens)
      (ofTokens tokens scope' symbols') := by
  refine ⟨⟨rfl, .inr rfl, ?_, ?_⟩, rfl⟩
  · rintro name ⟨token, mem, named, rfl⟩
    exact same token mem named
  · intro token mem named
    obtain ⟨ending, all, ends⟩ := Cursor.exists_tokens_ofTokens tokens
    rw [Cursor.tokens_eq, Cursor.before_ofTokens] at all
    have mem : token ∈ tokens ++ ending := all ▸ mem
    rcases List.mem_append.mp mem with mem | mem
    · exact ⟨token, mem, named, rfl⟩
    · rw [ends token mem] at named
      cases named

theorem tokens_read_statements (limit : Option Nat) (terminator : TokenKind) (p : Parser) :
    (p.read limit (.statements terminator)).2.cursor.tokens = p.cursor.tokens :=
  (read_onward limit (Goal.starts_statements terminator _)).tokens_eq

theorem program_snd (p : Parser) :
    p.program.2 = (p.read (some nestingLimit) (.statements .eof)).2 := by
  unfold program programWithin
  split
  · rename_i found
    rw [found]
  · rename_i found
    rw [found]

/-- From matching parsers a program has the same outcome, and declares the same variables. -/
theorem program_parallel {relevant : String → Prop} {p p' : Parser}
    (start : p.Matching (some nestingLimit) relevant p') :
    p'.program.1 = p.program.1 ∧
      Parallel (some nestingLimit) relevant p p' p.program.2 p'.program.2 := by
  rcases found : p.read (some nestingLimit) (.statements .eof) with ⟨result, q⟩
  have asked : (Goal.statements .eof).Regards relevant := trivial
  obtain ⟨q', found', parallel, -⟩ := read_matching asked found start
  refine ⟨?_, ?_⟩
  · simp only [program, programWithin, found, found']
    cases result with
    | error e => rfl
    | ok nodes =>
        exact congrArg (fun token : Token => Except.ok (Node.block nodes token.position))
          start.token_eq
  · rwa [program_snd, program_snd, found, found']

/-- A program has the same outcome, and declares the same variables, from all scopes that
have the same variables among the names that it writes, and with all symbols. -/
theorem program_of_relevant (symbols symbols' : Names)
    (same : ∀ token ∈ tokens, token.kind = .identifier →
      (token.literal ∈ scope' ↔ token.literal ∈ scope)) :
    let one := (ofTokens tokens scope symbols).program
    let other := (ofTokens tokens scope' symbols').program
    other.1 = one.1 ∧ other.2.cursor = one.2.cursor ∧
      ∃ declared, one.2.scope.toList = scope.toList ++ declared ∧
        other.2.scope.toList = scope'.toList ++ declared := by
  intro one other
  have start := matching_ofTokens (some nestingLimit) symbols symbols' same
  have kept (p : Parser) : p.program.2.cursor.tokens = p.cursor.tokens := by
    rw [program_snd, tokens_read_statements]
  obtain ⟨results, parallel⟩ := program_parallel start
  have tokens_eq : other.2.cursor.tokens = one.2.cursor.tokens :=
    (kept _).trans (kept (ofTokens tokens scope symbols)).symm
  exact ⟨results, Cursor.eq_of_upcoming tokens_eq parallel.matching.upcoming_eq,
    parallel.declared⟩

/-- With one more variable that the text does not mention, a program that fails behind two
assignments fails in the same way, and declares the same two. -/
theorem program_of_relevant_of_unfinished :
    let tokens := (lex "y = x\nz = ").tokens
    let one := (ofTokens tokens (.ofList ["x"]) .empty).program
    let other := (ofTokens tokens (.ofList ["a", "x"]) (.ofList ["b"])).program
    (∀ token ∈ tokens, token.kind = .identifier →
      (token.literal ∈ Names.ofList ["a", "x"] ↔ token.literal ∈ Names.ofList ["x"])) ∧
    other.1 = one.1 ∧ other.2.cursor = one.2.cursor ∧
      ∃ declared, one.2.scope.toList = ["x"] ++ declared ∧
        other.2.scope.toList = ["a", "x"] ++ declared := by
  intro tokens one other
  have all : (lex "y = x\nz = ").tokens = [.new .identifier "y" ⟨1, 1⟩, .new .assign "=" ⟨1, 3⟩,
      .new .identifier "x" ⟨1, 5⟩, .new .newline "\n" ⟨1, 6⟩, .new .identifier "z" ⟨2, 1⟩,
      .new .assign "=" ⟨2, 3⟩, .endOfInput ⟨2, 5⟩] := by
    cbv
  have same : ∀ token ∈ tokens, token.kind = .identifier →
      (token.literal ∈ Names.ofList ["a", "x"] ↔ token.literal ∈ Names.ofList ["x"]) := by
    show ∀ token ∈ (lex "y = x\nz = ").tokens, _
    rw [all]
    decide
  exact ⟨same, program_of_relevant .empty (.ofList ["b"]) same⟩

end Parser

end RubyReader
