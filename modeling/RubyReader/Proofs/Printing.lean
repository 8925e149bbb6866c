/-
# `Printing` — reading undoes printing

A program that is printed with all its parentheses is read as the tree it was printed
from, up to places, if its names are what the scope makes of them and it is at most a
hundred and twenty high (`program_printed`).  A tree opens at most two expressions for
each step of its height, so this is within the limit.

The tokens may stand anywhere, numbers may be written in any way that has their value,
and the end of the input may be there or not.
-/
import Mathlib
import RubyReader.Proofs.Grammar.Rereading
import RubyReader.Proofs.Signs

namespace RubyReader

open Node (separated)

variable {write : Value → Token} {statements : List Node} {tokens : List Token}
  {scope symbols : Names}

/-- Tokens that print statements, wherever they stand, with or without an end of the
input behind them. -/
def Printing (write : Value → Token) (statements : List Node) (tokens : List Token) : Prop :=
  ∃ ending, (ending = [] ∨ ending = [.endOfInput .start]) ∧
    tokens.map (Token.relocate nowhere) =
      (separated write statements ++ ending).map (Token.relocate nowhere)

/-! ## Places -/

theorem Glued.of_relocate {tokens tokens' : List Token}
    (h : tokens'.map (Token.relocate nowhere) = tokens.map (Token.relocate nowhere)) :
    Glued tokens tokens' := by
  induction tokens generalizing tokens' with
  | nil =>
      obtain rfl := List.map_eq_nil_iff.mp h
      exact .nil
  | cons token rest ih =>
      cases tokens' with
      | nil => cases h
      | cons token' rest' =>
          obtain ⟨same, below⟩ := List.cons.inj h
          obtain ⟨place, rfl⟩ := Token.relocate_nowhere_eq_iff.mp same
          exact .keep place (ih below)

/-! ## Programs -/

/-- The parser at the first token of a printed program, with or without an end of the
input behind its tokens. -/
theorem Parser.stands_separated (denotes : Denotes write)
    (wellFormed : Node.AllWellFormed statements) {ending : List Token}
    (ends : ending = [] ∨ ending = [.endOfInput .start]) :
    ∃ last, last.kind = .eof ∧
      (Parser.ofTokens (separated write statements ++ ending) scope symbols).Stands
        (separated write statements ++ [last]) scope 0 := by
  rcases ends with rfl | rfl
  · rw [List.append_nil]
    cases statements with
    | nil => exact ⟨.endOfInput .start, rfl, rfl, rfl, rfl⟩
    | cons node nodes =>
        obtain ⟨front, last, e, goesOn⟩ := Node.separated_concat denotes wellFormed
        obtain ⟨ending, upcoming, ends⟩ := Cursor.upcoming_ofTokens_open goesOn
        rw [e]
        exact ⟨ending, ends, upcoming, rfl, rfl⟩
  · exact ⟨_, rfl, Cursor.upcoming_ofTokens rfl, rfl, rfl⟩

/-- A program is read again from its tokens, up to places, whatever tokens its numbers are
written as; and all numbers can be written. -/
theorem program_printed {position : Position} (wellFormed : Node.AllWellFormed statements)
    (inScope : Node.AllScoped scope statements)
    (low : (Node.block statements position).height ≤ 120) :
    Denotes Value.token ∧ ∀ write, Denotes write → ∀ tokens, Printing write statements tokens →
      ∃ node q, (Parser.ofTokens tokens scope symbols).program = (.ok node, q) ∧
        node.Alike (.block statements position) := by
  refine ⟨denotes_token, fun write denotes tokens printing => ?_⟩
  obtain ⟨ending, ends, same⟩ := printing
  obtain ⟨last, eof, stands⟩ := Parser.stands_separated denotes wellFormed ends
  have room : Room (some nestingLimit) (0 + 2 * Node.heightBelow statements) := by
    intro most mem
    obtain rfl := Option.some.inj mem
    rw [Node.height] at low
    rw [nestingLimit]
    omega
  obtain ⟨again, q, reads, alike, _⟩ :=
    (allReread denotes statements scope wellFormed inScope).reads_separated eof stands room
  obtain ⟨nodes, q', reads', alike', -⟩ := reads.glued_ofTokens (.of_relocate same)
  exact ⟨_, q', Parser.program_eq_ok_iff.mpr ⟨nodes, rfl, reads'⟩,
    .block (alike'.trans alike)⟩

/-- An assignment of a negative number, a method and a conditional. -/
theorem program_printed_of_method :
    ∃ text statements tokens,
      text = "( x = -1 )\n( def f ( a )\n( a + g ( ) . h ( a , :s ) )\nend )\n( x ? y : f ( ) )" ∧
      tokens = (lex text).tokens ∧
      Node.AllWellFormed statements ∧ Node.AllScoped (.ofList ["y"]) statements ∧
      (Node.block statements .start).height ≤ 120 ∧ Printing Value.token statements tokens ∧
      ∃ node q, (Parser.ofTokens tokens (.ofList ["y"]) .empty).program = (.ok node, q) ∧
        node.Alike (.block statements .start) := by
  let name (text : String) (isLocal : Bool) : Identifier := ⟨Node.mark .identifier text, isLocal⟩
  let known (text : String) : Node := .identifier (name text true) .start
  let self : Node := .implicitSelf .start
  let sum : Node := .call (known "a") ⟨"+"⟩
    [.call (.call self ⟨"g"⟩ [] .start) ⟨"h"⟩ [known "a", .symbol (.sym ⟨"s"⟩) .start] .start]
    .start
  let statements : List Node :=
    [.assignment (name "x" false) (.literal (.int (-1)) .start) .start,
      .definition (name "f" false) [known "a"] [sum] .start,
      .conditional (known "x") (known "y") (.call self ⟨"f"⟩ [] .start) .start]
  have f : IsName "f" := ⟨'f', [], by decide, by cbv⟩
  have g : IsName "g" := ⟨'g', [], by decide, by cbv⟩
  have h : IsName "h" := ⟨'h', [], by decide, by cbv⟩
  have plus : TokenKind.ofOperator? "+" = some .plus := by decide
  have isSum : sum.WellFormed := by
    refine .operation rfl (.named (.inr ?_) ⟨rfl, ⟨_, rfl⟩, trivial⟩ (by decide) h) plus
    exact .named (.inl rfl) trivial (by decide) g
  have wellFormed : Node.AllWellFormed statements := by
    refine ⟨⟨rfl, trivial⟩, ⟨rfl, ?_, by decide, isSum, trivial⟩, ⟨rfl, rfl, ?_⟩, trivial⟩
    · intro param mem
      obtain rfl := List.mem_singleton.mp mem
      exact ⟨rfl, rfl⟩
    · exact .named (.inl rfl) trivial (by decide) f
  have inScope : Node.AllScoped (.ofList ["y"]) statements := by
    refine ⟨⟨by decide, trivial⟩, ⟨rfl, ?_, trivial⟩, ?_, trivial⟩
    · exact ⟨⟨rfl, by decide⟩, ⟨⟨trivial, trivial⟩, ⟨rfl, by decide⟩, trivial, trivial⟩, trivial⟩
    · exact ⟨⟨rfl, by decide⟩, ⟨rfl, by decide⟩, trivial, trivial⟩
  have low : (Node.block statements .start).height ≤ 120 := by decide
  have printing : Printing Value.token statements (lex
      "( x = -1 )\n( def f ( a )\n( a + g ( ) . h ( a , :s ) )\nend )\n( x ? y : f ( ) )").tokens :=
    ⟨[.endOfInput .start], .inr rfl, by cbv⟩
  exact ⟨_, statements, _, rfl, rfl, wellFormed, inScope, low, printing,
    (program_printed wellFormed inScope low).2 Value.token denotes_token _ printing⟩

end RubyReader
