/-
# `Sessions` — a session as one program

A session reads each input in the scope that the successful ones before it have
left.  So its successful inputs, with a line end between each two of them, are
one program, with the same statements below each other and the same variables at
the end (`Session.readAll_joined`).

What an input contributes depends neither on the symbols nor on its place: this
is `Accepted`, and acceptance of two texts composes (`Accepted.append`).
-/
import Mathlib
import RubyReader.Proofs.Reading.Program
import RubyReader.Proofs.Reading.Statements
import RubyReader.Proofs.Token.Concatenation

namespace RubyReader

open Lexer (newlines)

/-! ## The successful inputs of a session -/

def Node.toStatements : Node → List Node
  | block nodes _ => nodes
  | node => [node]

/-- Reads inputs one after the other: those that could be read, each with its
tree, and the session after the last. -/
def Session.readAll (session : Session) : List String → List (String × Node) × Session
  | [] => ([], session)
  | text :: rest =>
    match session.parse text with
    | (.ok node, after) => ((text, node) :: (after.readAll rest).1, (after.readAll rest).2)
    | (.error _, after) => after.readAll rest

/-- Texts below each other. -/
def joined (accepted : List (String × Node)) : String := "\n".intercalate (accepted.map Prod.fst)

/-- The statements of texts below each other, with a number of lines above them:
those of the first are moved down by these, and those of the next also by the
lines of the first. -/
def stacked (above : Nat) : List (String × Node) → List Node
  | [] => []
  | (text, node) :: rest =>
    node.toStatements.map (Node.relocate (.down above)) ++ stacked (above + newlines text + 1) rest

theorem stacked_down (above lines : Nat) (accepted : List (String × Node)) :
    (stacked above accepted).map (Node.relocate (.down lines))
      = stacked (above + lines) accepted := by
  induction accepted generalizing above with
  | nil => rfl
  | cons head rest ih =>
      obtain ⟨text, node⟩ := head
      have further : above + newlines text + 1 + lines = above + lines + newlines text + 1 := by
        omega
      rw [stacked, stacked, List.map_append, List.map_map, ih, further]
      congr 2
      funext node
      exact (Node.relocate_relocate _ _ node).trans (by rw [Position.down_comp_down])

/-- The statements of the first text, and those of the others below it. -/
theorem stacked_cons (text : String) (node : Node) (rest : List (String × Node)) :
    stacked 0 ((text, node) :: rest)
      = node.toStatements
        ++ (stacked 0 rest).map (Node.relocate (.down (newlines text + 1))) := by
  have stays : node.toStatements.map (Node.relocate (.down 0)) = node.toStatements := by
    rw [Position.down_zero, ← Node.relocateAll_eq_map, Node.relocateAll_id]
  rw [stacked, stays, stacked_down, Nat.add_assoc]

theorem joined_cons_cons (text : String) (node : Node) (next : String × Node)
    (rest : List (String × Node)) :
    joined ((text, node) :: next :: rest) = text ++ "\n" ++ joined (next :: rest) :=
  String.intercalate_cons_cons

/-! ## Acceptance

Acceptance does not depend on the symbols that are known, and texts with a line end between
them are accepted one after the other. -/

/-- A text is read as statements in a scope, which leave another one. -/
def Accepted (scope : Names) (text : String) (nodes : List Node) (scope' : Names) : Prop :=
  (lex text).report.first? = none ∧ ∀ symbols, ∃ q,
    Reads (some nestingLimit) (.statements .eof) (.ofTokens (lex text).tokens scope symbols)
      nodes q ∧ q.scope = scope'

/-- A session accepts a text for its statements, whatever its symbols are. -/
theorem accepted_iff {session : Session} {text : String} {nodes : List Node} {scope' : Names} :
    Accepted session.locals text nodes scope' ↔
      ∃ position after, session.parse text = (.ok (.block nodes position), after) ∧
        after.locals = scope' := by
  constructor
  · rintro ⟨right, each⟩
    obtain ⟨q, reads, rfl⟩ := each session.symbols
    have program := Parser.program_eq_ok_iff.mpr ⟨nodes, rfl, reads⟩
    exact ⟨_, _, Session.parse_eq_ok_iff.mpr ⟨right, q, program, rfl⟩, rfl⟩
  · rintro ⟨position, after, accepted, rfl⟩
    obtain ⟨right, q, program, rfl⟩ := Session.parse_eq_ok_iff.mp accepted
    obtain ⟨nodes', block, reads⟩ := Parser.program_eq_ok_iff.mp program
    obtain ⟨rfl, -⟩ := Node.block.inj block
    refine ⟨right, fun symbols => ?_⟩
    let p' := Parser.ofTokens (lex text).tokens session.locals symbols
    have same : p'.cursor.upcoming
        = (Cursor.ofTokens (lex text).tokens).upcoming.map (Token.relocate id) :=
      (List.map_id _).symm
    have again := reads.statements_moved same rfl (Nat.le_refl 0)
    rwa [Node.relocateAll_id] at again

theorem accepted_of_parse {session after : Session} {text : String} {node : Node}
    (h : session.parse text = (.ok node, after)) :
    Accepted session.locals text node.toStatements after.locals := by
  obtain ⟨_, q, program, _⟩ := Session.parse_eq_ok_iff.mp h
  obtain ⟨nodes, rfl, _⟩ := Parser.program_eq_ok_iff.mp program
  exact accepted_iff.mpr ⟨_, after, h, rfl⟩

theorem accepted_empty (scope : Names) : Accepted scope "" [] scope := by
  have tokens : (lex "").tokens = [.endOfInput .start] := by cbv
  refine ⟨by cbv, fun symbols => ⟨_, .noStatement (.inl ?_), rfl⟩⟩
  rw [tokens]
  rfl

theorem Accepted.append {scope scope' scope'' : Names} {a b : String} {nodes more : List Node}
    (first : Accepted scope a nodes scope') (second : Accepted scope' b more scope'') :
    Accepted scope (a ++ "\n" ++ b)
      (nodes ++ more.map (Node.relocate (.down (newlines a + 1)))) scope'' := by
  refine ⟨Lexer.first?_append first.1 second.1, fun symbols => ?_⟩
  obtain ⟨q, reads, rfl⟩ := first.2 symbols
  obtain ⟨r, reads', rfl⟩ := second.2 symbols
  obtain ⟨front, last, line, all, ends, -, newline, both⟩ := Lexer.lex_append (b := b) first.1
  have closes : ∀ token ∈ [last].head?, token.Closes := by simp [Token.Closes, ends]
  have closes' : ∀ token ∈ (line :: (Cursor.ofTokens (lex b).tokens).upcoming.map
      (Token.relocate (.down (newlines a + 1)))).head?, token.Closes := by
    simp [Token.Closes, newline]
  have same : Beside (.moved id closes closes') (.ofTokens (lex a).tokens scope symbols)
      (.ofTokens (lex (a ++ "\n" ++ b)).tokens scope symbols) := by
    have front_id : front.map (Token.relocate id) = front := List.map_id front
    refine .of_front ((upcoming_lex a).trans all) ?_ rfl (Nat.le_refl 0)
    rw [upcoming_lex, front_id, ← both]
    exact upcoming_lex _
  have atEnd : q.cursor.remaining = 0 := congrArg List.length reads.after_eq_nil
  rw [← Node.relocateAll_eq_map]
  exact reads'.statements_append newline reads atEnd rfl rfl _ _ rfl same

/-! ## Whole sessions -/

namespace Session

variable {session : Session} {inputs : List String}

/-- Without a successful input the variables stay as they are. -/
theorem locals_readAll_of_nil (none : (session.readAll inputs).1 = []) :
    (session.readAll inputs).2.locals = session.locals := by
  induction inputs generalizing session with
  | nil => rfl
  | cons text rest ih =>
      rw [readAll] at none ⊢
      split at none
      · cases none
      · rename_i error after failed
        exact (ih none).trans (locals_of_error failed)

/-- The successful inputs are accepted as one text. -/
theorem readAll_accepted (session : Session) (inputs : List String) :
    Accepted session.locals (joined (session.readAll inputs).1)
      (stacked 0 (session.readAll inputs).1) (session.readAll inputs).2.locals := by
  induction inputs generalizing session with
  | nil => exact accepted_empty session.locals
  | cons text rest ih =>
      rw [readAll]
      split
      · rename_i node after read
        have first := accepted_of_parse read
        dsimp only
        rw [stacked_cons]
        cases others : (after.readAll rest).1 with
        | nil =>
            have one : joined [(text, node)] = text := String.intercalate_singleton
            rw [locals_readAll_of_nil others, one, stacked, List.map_nil, List.append_nil]
            exact first
        | cons next further =>
            rw [joined_cons_cons, ← others]
            exact first.append (ih after)
      · rename_i error after failed
        rw [← locals_of_error failed]
        exact ih after

/-- A session is one program made of its successful inputs: with line ends between
them, a fresh session accepts them, for their statements below each other, and has
the same variables afterwards.  An input that fails leaves the variables as they
were. -/
theorem readAll_joined {accepted : List (String × Node)} {last : Session}
    (read : Session.new.readAll inputs = (accepted, last)) :
    (∃ position after,
      Session.new.parse (joined accepted) = (.ok (.block (stacked 0 accepted) position), after) ∧
        after.locals = last.locals) ∧
      ∀ (session after : Session) (text : String) (error : ParseError),
        session.parse text = (.error error, after) → after.locals = session.locals := by
  have whole := readAll_accepted Session.new inputs
  rw [read] at whole
  exact ⟨accepted_iff.mp whole, fun _ _ _ _ => locals_of_error⟩

/-- The second of three inputs fails, and the third begins with a line end. -/
theorem readAll_joined_of_failure :
    ∃ accepted last, Session.new.readAll ["x = 1", "y = (", "\nx"] = (accepted, last) ∧
      accepted.map Prod.fst = ["x = 1", "\nx"] ∧
        ∃ position after,
          Session.new.parse (joined accepted)
            = (.ok (.block (stacked 0 accepted) position), after) ∧
              after.locals = last.locals := by
  have texts : (Session.new.readAll ["x = 1", "y = (", "\nx"]).1.map Prod.fst
      = ["x = 1", "\nx"] := by
    cbv
  cases read : Session.new.readAll ["x = 1", "y = (", "\nx"] with
  | mk accepted last =>
      rw [read] at texts
      exact ⟨accepted, last, rfl, texts, (readAll_joined read).1⟩

end Session

end RubyReader
