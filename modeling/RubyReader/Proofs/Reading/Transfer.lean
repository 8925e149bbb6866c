/-
# `Transfer` — a phrase does not depend on what stands around it

What is read between two places of the input depends on the tokens between them, on the scope
and on the number of open expressions; behind its end it only matters that nothing goes on there
(`Token.Closes`).  So a phrase can be read again among other tokens, and with its own tokens at
other places (`Reads.expression_moved`, `Reads.statements_moved`).
-/
import RubyReader.Proofs.Reading.Simulation

namespace RubyReader

variable {limit : Option Nat} {move : Position → Position} {tail tail' : List Token}
  {closes : ∀ token ∈ tail.head?, token.Closes} {closes' : ∀ token ∈ tail'.head?, token.Closes}
  {p p' q : Parser}

def Respelling.moved (move : Position → Position) (closes : ∀ token ∈ tail.head?, token.Closes)
    (closes' : ∀ token ∈ tail'.head?, token.Closes) : Respelling :=
  ⟨move, id, False, False, tail, tail', closes, closes'⟩

theorem Respelled.moved_iff {before tokens tokens' : List Token} :
    Respelled (.moved move closes closes') before tokens tokens' ↔
      ∃ front, tokens = front ++ tail ∧ tokens' = front.map (Token.relocate move) ++ tail' := by
  constructor
  · intro h
    induction h with
    | tail => exact ⟨[], rfl, rfl⟩
    | @keep _ _ _ token place here _ ih =>
        obtain ⟨front, rfl, rfl⟩ := ih
        obtain rfl : place = move token.position := here
        exact ⟨token :: front, rfl, rfl⟩
    | line none => exact none.elim
    | glue _ none => exact none.elim
  · rintro ⟨front, rfl, rfl⟩
    induction front generalizing before with
    | nil => exact .tail
    | cons token rest ih => exact .keep _ rfl ih

/-- In front of the same tokens, the second parser with its tokens moved. -/
theorem Beside.of_front {front : List Token} (upcoming : p.cursor.upcoming = front ++ tail)
    (upcoming' : p'.cursor.upcoming = front.map (Token.relocate move) ++ tail')
    (scope : p'.scope = p.scope) (depth : p'.depth ≤ p.depth) :
    Beside (.moved move closes closes') p p' :=
  ⟨Respelled.moved_iff.mpr ⟨front, upcoming, upcoming'⟩, scope, depth⟩

theorem Beside.exists_front (same : Beside (.moved move closes closes') p p') :
    ∃ front, p.cursor.upcoming = front ++ tail ∧
      p'.cursor.upcoming = front.map (Token.relocate move) ++ tail' :=
  Respelled.moved_iff.mp same.respelled

theorem Beside.inStep_of_within (same : Beside (.moved move closes closes') p p')
    (within : p.Within tail) : InStep (.moved move closes closes') p p' := by
  rcases same.meets_or with (inStep | glued) | ⟨none, -⟩ | ⟨atTail, -⟩
  · exact inStep
  · exact glued.glues.elim
  · exact none.elim
  · exact absurd atTail within.upcoming_ne

/-- An expression is read again among other tokens. -/
theorem Reads.expression_moved {min : Precedence} {node : Node}
    (h : Reads limit (.expression min) p node q) (up : q.UpTo tail)
    (same : Beside (.moved move closes closes') p p') :
    ∃ q', Reads limit (.expression min) p' (node.relocate move) q' ∧
      Abreast (.moved move closes closes') q q' := by
  obtain ⟨q', ⟨node', reads, agree⟩, behind⟩ := h.simulated.1 up p' same
  obtain rfl : node' = node.relocate move := node'.relocate_id.symm.trans agree
  exact ⟨q', reads, behind⟩

/-- All the statements of an input are read again, with their tokens elsewhere and whatever the
symbols. -/
theorem Reads.statements_moved {nodes : List Node} (h : Reads limit (.statements .eof) p nodes q)
    (upcoming : p'.cursor.upcoming = p.cursor.upcoming.map (Token.relocate move))
    (scope : p'.scope = p.scope) (depth : p'.depth ≤ p.depth) :
    ∃ q', Reads limit (.statements .eof) p' (Node.relocateAll move nodes) q' ∧
      q'.scope = q.scope := by
  have same : Beside (.moved move Token.Closes.head?_nil Token.Closes.head?_nil) p p' :=
    .of_front (List.append_nil _).symm (by rw [upcoming, List.append_nil]) scope depth
  obtain ⟨q', ⟨nodes', reads, agree⟩, behind⟩ :=
    h.simulated (by decide) (Nat.zero_le _) (Nat.zero_le _) p' same
  obtain rfl : nodes' = Node.relocateAll move nodes :=
    (Node.relocateAll_id nodes').symm.trans agree
  exact ⟨q', reads, behind.scope_eq⟩

end RubyReader
