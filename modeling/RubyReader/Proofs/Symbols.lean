/-
# `Symbols` — the table of symbols holds what the output needs

Reading a program adds to the symbols that were there the messages of its calls and the names of
its symbols, and no others; writing it then adds the rest of what its tagged list holds, tags
included.  A program that fails takes none away (`program_symbols`).

In a table that was empty before, the numbers of symbols are therefore those of the distinct
names in the tree, and in its tagged list.
-/
import Mathlib
import RubyReader.Proofs.Reading.Accounts
import RubyReader.Proofs.Reading.Program

namespace RubyReader

/-- A table that was empty before has as many symbols as it gained distinct names. -/
theorem Names.Gains.size_eq {names after : Names} {more : List String}
    (h : names.Gains more after) (none : names.toList = []) : after.size = more.toFinset.card := by
  have same : after.toList.toFinset = more.toFinset := by
    ext name
    rw [List.mem_toFinset, List.mem_toFinset, ← Names.mem_iff, h name, Names.mem_iff, none]
    simp
  rw [Names.size, ← same, List.toFinset_card_of_nodup after.nodup]

/-- A plain tree is written, and with its symbols there are then all of its tagged list. -/
theorem Node.Plain.sexp_gains {node : Node} {symbols : Names} (plain : node.Plain)
    (there : ∀ name ∈ node.mentioned, name ∈ symbols) :
    ∃ after, node.sexp symbols = (.ok node.tagged, after) ∧
      symbols.Gains node.tagged.symbolNames after := by
  rcases Node.toSexp_writes node symbols with ⟨-, after, written⟩ | ⟨unable, -⟩
  · refine ⟨after, by rw [sexp, written], node.toSexp_interns _ _ _ ?_ written⟩
    rwa [plain.symbolNames_eq]
  · exact absurd plain.writable unable

/-- Behind a program the symbols are those that were there before and those that its tree
mentions; behind its tagged list, those that were there and those of that list. -/
theorem program_symbols (tokens : List Token) (scope symbols : Names) :
    match (Parser.ofTokens tokens scope symbols).program with
    | (.ok node, q) =>
      (∀ name, name ∈ q.symbols ↔ name ∈ symbols ∨ name ∈ node.mentioned) ∧
      ∃ value after, node.sexp q.symbols = (.ok value, after) ∧
        (∀ name, name ∈ after ↔ name ∈ symbols ∨ name ∈ value.symbolNames) ∧
        (symbols = .empty → q.symbols.size = node.mentioned.toFinset.card ∧
          after.size = value.symbolNames.toFinset.card)
    | (.error _, q) => ∀ name ∈ symbols, name ∈ q.symbols := by
  split
  · rename_i node q accepted
    obtain ⟨nodes, rfl, reads⟩ := Parser.program_eq_ok_iff.mp accepted
    have plain := reads.plain.block (Parser.ofTokens tokens scope symbols).token.position
    have gained : symbols.Gains (Node.allMentioned nodes) q.symbols := reads.accounts
    obtain ⟨after, written, further⟩ := plain.sexp_gains fun name mem => gained.mem_of_gained mem
    have sub := Node.symbolNames_subset _ plain.writable
    rw [plain.symbolNames_eq] at sub
    have whole := gained.trans_of_subset further sub
    refine ⟨gained, _, after, written, whole, ?_⟩
    rintro rfl
    exact ⟨gained.size_eq rfl, whole.size_eq rfl⟩
  · rename_i error q failed
    have found := Parser.program_eq_error_iff.mp failed
    have kept := Parser.read_keeps (some nestingLimit) (.statements .eof)
      (.ofTokens tokens scope symbols)
    rw [found] at kept
    exact kept

/-- A call with a symbol, and the symbol again: two names in the tree, and five in its tagged
list. -/
theorem program_symbols_of_call :
    ∃ node q value after,
      (Parser.ofTokens (lex "foo(:a)\n:a").tokens .empty .empty).program = (.ok node, q) ∧
      node.sexp q.symbols = (.ok value, after) ∧
      q.symbols.size = 2 ∧ node.mentioned.toFinset.card = 2 ∧
      after.size = 5 ∧ value.symbolNames.toFinset.card = 5 := by
  obtain ⟨node, q, accepted⟩ := exists_of_isOk
    ((Parser.ofTokens (lex "foo(:a)\n:a").tokens .empty .empty).program) (by cbv)
  have counted : (match (Parser.ofTokens (lex "foo(:a)\n:a").tokens .empty .empty).program with
      | (.ok node, q) => (q.symbols.size, (node.sexp q.symbols).2.size)
      | (.error _, _) => (0, 0)) = (2, 5) := by cbv
  have whole := program_symbols (lex "foo(:a)\n:a").tokens .empty .empty
  rw [accepted] at whole counted
  obtain ⟨-, value, after, written, -, sizes⟩ := whole
  obtain ⟨size, size'⟩ := sizes rfl
  have here : q.symbols.size = 2 := congrArg Prod.fst counted
  have there : after.size = 5 := by
    have second : (node.sexp q.symbols).2.size = 5 := congrArg Prod.snd counted
    rwa [written] at second
  exact ⟨node, q, value, after, accepted, written, here, size ▸ here, there, size' ▸ there⟩

end RubyReader
