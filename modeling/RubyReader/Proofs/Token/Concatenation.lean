/-
# `Concatenation` — two texts with a line end between them

A line end belongs to no lexeme but an open string, so what stands in front of
one is read without looking beyond it.  The lexemes of two texts with a line
end between them are therefore those of the first, a line end, and those of the
second (`lexemes_append`), and the tokens are those of each, with the second
text moved down (`lex_append`).
-/
import RubyReader.Proofs.Token.Boundaries
import RubyReader.Proofs.Token.Lexing
import RubyReader.Proofs.Tree.Relocation

namespace RubyReader.Lexer

/-! ## Lexemes -/

def newline : Lexeme := ⟨.token .newline, '\n', []⟩

/-- Two texts with a line end between them, the first without an open string,
have the lexemes of each. -/
theorem lexemes_append {as bs : List Char}
    (closed : ∀ lexeme ∈ lexemes as, lexeme.cls ≠ .openString) :
    lexemes (as ++ '\n' :: bs) = lexemes as ++ newline :: lexemes bs := by
  induction as using lexemes_induction with
  | nil =>
      rw [List.nil_append, lexemes_cons, lexemes_nil]
      rfl
  | cons c cs ih =>
      rw [lexemes_cons] at closed ⊢
      obtain ⟨first, rest⟩ := List.forall_mem_cons.mp closed
      have le := classify_le cs c
      have here : classify c (cs ++ '\n' :: bs) = classify c cs := by
        refine classify_append (.newline bs) first fun _ => ?_
        rintro _ ⟨⟩
        rfl
      rw [List.cons_append, lexemes_cons, here,
        List.take_append_of_le_length le, List.drop_append_of_le_length le, ih rest]
      rfl

/-! ## Tokens -/

theorem placedFrom_down (position : Position) (lines : Nat) (list : List Lexeme) :
    placedFrom (position.down lines) list
      = (placedFrom position list).map fun (place, lexeme) => (place.down lines, lexeme) := by
  induction list generalizing position with
  | nil => rfl
  | cons lexeme rest ih => rw [placedFrom, Position.after_down, ih, placedFrom, List.map_cons]

theorem token?_relocate (move : Position → Position) (position : Position) (lexeme : Lexeme) :
    token? (move position) lexeme = (token? position lexeme).map (Token.relocate move) := by
  unfold token?
  split <;> rfl

/-- The tokens of a text from a position on. -/
def tokensFrom (position : Position) (chars : List Char) : List Token :=
  (placedFrom position (lexemes chars)).filterMap (fun (place, lexeme) => token? place lexeme)
    ++ [.endOfInput (position.after chars)]

theorem tokensFrom_down (position : Position) (lines : Nat) (chars : List Char) :
    tokensFrom (position.down lines) chars
      = (tokensFrom position chars).map (Token.relocate (.down lines)) := by
  rw [tokensFrom, placedFrom_down, Position.after_down, tokensFrom, List.map_append,
    List.filterMap_map, List.map_filterMap]
  simp only [← token?_relocate]
  rfl

theorem mem_placedFrom {position : Position} {list : List Lexeme} {lexeme : Lexeme}
    (mem : lexeme ∈ list) : ∃ place, (place, lexeme) ∈ placedFrom position list := by
  induction list generalizing position with
  | nil => cases mem
  | cons head rest ih =>
      rw [placedFrom]
      rcases List.mem_cons.mp mem with rfl | mem
      · exact ⟨position, List.mem_cons_self⟩
      · obtain ⟨place, found⟩ := ih mem
        exact ⟨place, List.mem_cons_of_mem _ found⟩

/-- Nothing is wrong with a text if each of its lexemes is a token or a blank. -/
theorem first?_eq_none_iff (text : String) :
    (lex text).report.first? = none ↔
      ∀ lexeme ∈ lexemes text.toList, lexeme.cls ≠ .openString ∧ lexeme.cls ≠ .stray := by
  rw [Report.first?, List.head?_eq_none_iff, lex_errors_eq, List.filterMap_eq_nil_iff]
  constructor
  · intro none lexeme mem
    obtain ⟨place, placed⟩ := mem_placedFrom mem
    have noError := none _ placed
    constructor
    · intro cls
      simp [error?, cls] at noError
    · intro cls
      simp [error?, cls] at noError
  · rintro right ⟨place, lexeme⟩ placed
    obtain ⟨noString, noStray⟩ := right lexeme (mem_of_placedFrom placed)
    simp only [error?]

def newlines (text : String) : Nat := text.toList.count '\n'

/-- What follows a text and a newline is as many lines down as the text has newlines,
and one more. -/
theorem step_after_start (chars : List Char) :
    (Position.start.after chars).step '\n' = Position.start.down (chars.count '\n' + 1) := by
  have line : (Position.start.after chars).line = 1 + chars.count '\n' := Position.line_after
  rw [Position.step, if_pos rfl, line]
  rfl

/-- Two texts with a newline between them, of which the first has no error: its
tokens without the end of the input, a line end, and the tokens of the second
text, moved down. -/
theorem lex_append {a b : String} (right : (lex a).report.first? = none) :
    ∃ front last line, (lex a).tokens = front ++ [last] ∧ last.kind = .eof ∧
      (∀ token ∈ front, token.kind ≠ .eof) ∧ line.kind = .newline ∧
      (lex (a ++ "\n" ++ b)).tokens
        = front ++ line :: (lex b).tokens.map (Token.relocate (.down (newlines a + 1))) := by
  have closed := fun lexeme mem => ((first?_eq_none_iff a).mp right lexeme mem).1
  obtain ⟨front, last, all, ends, only⟩ := lex_tokens_ends a
  refine ⟨front, last, .new .newline "\n" (Position.start.after a.toList), all, ends, only, rfl, ?_⟩
  obtain ⟨rfl, -⟩ := List.append_inj' (all.symm.trans (lex_tokens_eq a)) rfl
  have chars : (a ++ "\n" ++ b).toList = a.toList ++ '\n' :: b.toList := by simp
  have rest : tokensFrom ((Position.start.after a.toList).step '\n') b.toList
      = (lex b).tokens.map (Token.relocate (.down (newlines a + 1))) := by
    rw [step_after_start, tokensFrom_down, lex_tokens_eq]
    rfl
  rw [lex_tokens_eq, chars, lexemes_append closed, placedFrom_append, flatMap_chars_lexemes,
    List.filterMap_append, List.append_assoc, ← rest, tokensFrom, Position.after_append]
  rfl

theorem first?_append {a b : String} (right : (lex a).report.first? = none)
    (right' : (lex b).report.first? = none) : (lex (a ++ "\n" ++ b)).report.first? = none := by
  rw [first?_eq_none_iff] at right right' ⊢
  have chars : (a ++ "\n" ++ b).toList = a.toList ++ '\n' :: b.toList := by simp
  rw [chars, lexemes_append fun lexeme mem => (right lexeme mem).1]
  intro lexeme mem
  rcases List.mem_append.mp mem with mem | mem
  · exact right lexeme mem
  · rcases List.mem_cons.mp mem with rfl | mem
    · exact ⟨by simp [newline], by simp [newline]⟩
    · exact right' lexeme mem

end RubyReader.Lexer
