/-
# `Signs` — a sign may be glued to its digits

A program that is read is read again with any of its signs glued to the digits that
follow them: as the same tree, up to places, and with the same variables
(`program_glued`).  The signs may stand anywhere, and what follows the digits may be
anything; that the program is read at all makes each of them an operator.
-/
import Mathlib
import RubyReader.Proofs.Reading.Gluing
import RubyReader.Proofs.Reading.Program

namespace RubyReader

namespace Glued

theorem completed {tokens tokens' : List Token} (h : Glued tokens tokens') {last last' : Token}
    (same : last'.kind = .eof ↔ last.kind = .eof) :
    Glued (Cursor.completed last tokens) (Cursor.completed last' tokens') := by
  induction h generalizing last last' with
  | nil =>
      rw [Cursor.completed, Cursor.completed, Token.isEof, Token.isEof]
      simp only [same]
      split
      · exact .nil
      · exact .keep last'.position .nil
  | keep place _ ih => exact .keep place (ih Iff.rfl)
  | @glue sign number text rest rest' place signs isNumber unsigned _ ih =>
      refine .glue place signs isNumber unsigned (ih ?_)
      rfl

theorem upcoming_ofTokens {tokens tokens' : List Token} (h : Glued tokens tokens') :
    Glued (Cursor.ofTokens tokens).upcoming (Cursor.ofTokens tokens').upcoming := by
  cases h with
  | nil => exact .keep .start .nil
  | keep place below => exact .keep place (below.completed Iff.rfl)
  | glue place signs isNumber unsigned below =>
      exact .glue place signs isNumber unsigned (below.completed Iff.rfl)

end Glued

variable {tokens tokens' : List Token} {scope symbols : Names} {node : Node} {q : Parser}

theorem Reads.glued_ofTokens {limit : Option Nat} {nodes : List Node} (glued : Glued tokens tokens')
    (h : Reads limit (.statements .eof) (.ofTokens tokens scope symbols) nodes q) :
    ∃ nodes' q', Reads limit (.statements .eof) (.ofTokens tokens' scope symbols) nodes' q' ∧
      Node.AllAlike nodes' nodes ∧ q'.scope = q.scope :=
  h.statements_glued glued.upcoming_ofTokens rfl (Nat.le_refl 0)

/-- With some of its signs glued to their digits a program is read as the same tree, up to
places, and declares the same variables. -/
theorem program_glued (glued : Glued tokens tokens')
    (accepted : (Parser.ofTokens tokens scope symbols).program = (.ok node, q)) :
    ∃ node' q', (Parser.ofTokens tokens' scope symbols).program = (.ok node', q') ∧
      node'.Alike node ∧ q'.scope = q.scope := by
  obtain ⟨nodes, rfl, reads⟩ := Parser.program_eq_ok_iff.mp accepted
  obtain ⟨nodes', q', reads', alike, scope_eq⟩ := reads.glued_ofTokens glued
  exact ⟨_, q', Parser.program_eq_ok_iff.mpr ⟨nodes', rfl, reads'⟩, .block alike, scope_eq⟩

/-- A difference whose sign is glued to the first factor of a product. -/
theorem program_glued_of_difference :
    ∃ node q, (Parser.ofTokens (lex "x - 1 * 2").tokens (.ofList ["x"]) .empty).program
        = (.ok node, q) ∧
      Glued (lex "x - 1 * 2").tokens (lex "x -1 * 2").tokens ∧
      ∃ node' q', (Parser.ofTokens (lex "x -1 * 2").tokens (.ofList ["x"]) .empty).program
          = (.ok node', q') ∧ node'.Alike node ∧ q'.scope = q.scope := by
  obtain ⟨node, q, accepted⟩ := exists_of_isOk
    ((Parser.ofTokens (lex "x - 1 * 2").tokens (.ofList ["x"]) .empty).program) (by cbv)
  have tokens : (lex "x - 1 * 2").tokens =
      [.new .identifier "x" ⟨1, 1⟩, .new .minus "-" ⟨1, 3⟩, .new .integer "1" ⟨1, 5⟩,
        .new .times "*" ⟨1, 7⟩, .new .integer "2" ⟨1, 9⟩, .endOfInput ⟨1, 10⟩] := by
    cbv
  have tokens' : (lex "x -1 * 2").tokens =
      [.new .identifier "x" ⟨1, 1⟩, .new .integer ("-" ++ "1") ⟨1, 3⟩,
        .new .times "*" ⟨1, 6⟩, .new .integer "2" ⟨1, 8⟩, .endOfInput ⟨1, 9⟩] := by
    cbv
  have glued : Glued (lex "x - 1 * 2").tokens (lex "x -1 * 2").tokens := by
    rw [tokens, tokens']
    exact .keep _ (.glue _ rfl rfl (by cbv) (.keep _ (.keep _ (.keep _ .nil))))
  exact ⟨node, q, accepted, glued, program_glued glued accepted⟩

end RubyReader
