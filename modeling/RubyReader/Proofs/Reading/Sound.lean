/-
# `Sound` — what is read has a derivation

A rule that returns, with derivations for the phrases inside it, is a rule of
derivations: one lemma for each rule, by the steps it is made of.  The fuel of
the reader then carries them to whole readings (`reads_of_attempt`).
-/
import RubyReader.Proofs.Reading.Reads

namespace RubyReader

namespace Grammar

open Routine

variable {limit : Option Nat} {p q : Parser}

/-! ## Leading forms -/

theorem reads_boolean {node : Node} (h : boolean.Returns (Reads limit) p node q) :
    Reads limit (.leading .boolean) p node q := by
  unfold boolean at h
  rw [returns_take] at h
  split at h
  · rename_i kind
    obtain ⟨rfl, rfl⟩ := h
    exact .trueLiteral kind
  · rename_i kind
    obtain ⟨rfl, rfl⟩ := h
    exact .falseLiteral kind
  · exact h.elim

theorem reads_nil {node : Node} (h : nil.Returns (Reads limit) p node q) :
    Reads limit (.leading .nil) p node q := by
  unfold nil at h
  rw [returns_take] at h
  split at h
  · rename_i kind
    obtain ⟨rfl, rfl⟩ := h
    exact .nilLiteral kind
  · exact h.elim

theorem reads_number {node : Node} (h : number.Returns (Reads limit) p node q) :
    Reads limit (.leading .number) p node q := by
  unfold number at h
  rw [returns_currentToken, returns_numeral] at h
  obtain ⟨value, written, rfl, rfl⟩ := h
  exact .number written

theorem reads_symbolLiteral {node : Node} (h : symbolLiteral.Returns (Reads limit) p node q) :
    Reads limit (.leading .symbol) p node q := by
  unfold symbolLiteral at h
  rw [returns_take] at h
  split at h
  · rename_i kind
    obtain ⟨rfl, rfl⟩ := h
    exact .symbol kind
  · exact h.elim

theorem reads_stringLiteral {node : Node} (h : stringLiteral.Returns (Reads limit) p node q) :
    Reads limit (.leading .string) p node q := by
  unfold stringLiteral at h
  rw [returns_take] at h
  split at h
  · rename_i kind
    obtain ⟨rfl, rfl⟩ := h
    exact .string kind
  · exact h.elim

theorem reads_name {node : Node} (h : name.Returns (Reads limit) p node q) :
    Reads limit (.leading .name) p node q := by
  unfold name at h
  rw [returns_currentToken] at h
  split at h
  · rename_i kind
    have ahead : p.cursor.next = p.advance.token := Parser.next_eq (by simp [kind])
    rw [returns_nextToken, returns_step, returns_knows, ahead] at h
    split at h
    · rename_i known
      obtain ⟨rfl, rfl⟩ := h
      simp only [Parser.scope_advance, Bool.or_eq_true, Names.contains_iff,
        decide_eq_true_eq] at known
      exact .name kind known
    · rename_i unknown
      simp only [Parser.scope_advance, Bool.or_eq_true, Names.contains_iff, decide_eq_true_eq,
        not_or] at unknown
      unfold selfCall at h
      rw [returns_symbol, returns_bareArgumentList] at h
      obtain ⟨begins, args, p', found, rfl, rfl⟩ | ⟨begins, rfl, rfl⟩ := h
      · exact .selfCallWith kind unknown.1 unknown.2 begins found
      · exact .selfCall kind unknown.1 unknown.2 begins
  · exact h.elim

theorem reads_group {node : Node} (h : group.Returns (Reads limit) p node q) :
    Reads limit (.leading .group) p node q := by
  unfold group at h
  rw [returns_expect] at h
  obtain ⟨opening, h⟩ := h
  rw [returns_skipLineEnds, returns_eat] at h
  obtain ⟨closing, rfl, rfl⟩ | ⟨more, h⟩ := h
  · exact .emptyGroup opening closing
  · simp only [Bool.false_eq_true, ↓reduceIte, returns_expression_bind] at h
    obtain ⟨inner, p', found, h⟩ := h
    rw [returns_skipLineEnds, returns_expect] at h
    obtain ⟨closing, rfl, rfl⟩ := h
    exact .group opening more found closing

theorem reads_definition {node : Node} (h : definition.Returns (Reads limit) p node q) :
    Reads limit (.leading .definition) p node q := by
  unfold definition at h
  rw [returns_expect] at h
  obtain ⟨opening, h⟩ := h
  rw [returns_expect] at h
  obtain ⟨named, ⟨params, body⟩, p', found, rfl, rfl⟩ := h
  exact .definition opening named found

theorem reads_leading {form : LeadingForm} {node : Node}
    (h : (leading form).Returns (Reads limit) p node q) : Reads limit (.leading form) p node q := by
  cases form with
  | boolean => exact reads_boolean h
  | nil => exact reads_nil h
  | number => exact reads_number h
  | symbol => exact reads_symbolLiteral h
  | string => exact reads_stringLiteral h
  | name => exact reads_name h
  | group => exact reads_group h
  | definition => exact reads_definition h

/-! ## Following forms -/

theorem reads_assignment {left node : Node} (h : (assignment left).Returns (Reads limit) p node q) :
    Reads limit (.following .assignment left) p node q := by
  unfold assignment at h
  split at h
  · rw [returns_expect] at h
    obtain ⟨sign, h⟩ := h
    rw [returns_declareLocal] at h
    obtain ⟨value, p', found, rfl, rfl⟩ := h
    exact .assignment sign found
  · exact h.elim

theorem reads_call {left node : Node} (h : (call left).Returns (Reads limit) p node q) :
    Reads limit (.following .call left) p node q := by
  unfold call at h
  rw [returns_previousToken] at h
  split at h
  · exact h.elim
  · rename_i noParen
    have notAfter : p.afterParen = false := Bool.eq_false_iff.mpr noParen
    split at h
    · rw [returns_symbol, returns_argumentList] at h
      obtain ⟨opening, ⟨closing, rfl, rfl⟩ | ⟨more, args, p', found, rfl, rfl⟩⟩ := h
      · exact .emptyCall notAfter opening closing
      · exact .call notAfter opening more found
    · rw [returns_argumentList] at h
      obtain ⟨opening, ⟨closing, rfl, rfl⟩ | ⟨more, args, p', found, rfl, rfl⟩⟩ := h
      · exact .emptyCallAgain notAfter opening closing
      · exact .callAgain notAfter opening more found
    · exact h.elim

theorem reads_operator {left node : Node} (h : (operator left).Returns (Reads limit) p node q) :
    Reads limit (.following .operator left) p node q := by
  unfold operator at h
  rw [returns_take] at h
  split at h
  · rename_i name known
    rw [returns_symbol] at h
    obtain ⟨right, p', found, rfl, rfl⟩ := h
    exact .operator known found
  · exact h.elim

theorem reads_signedNumber {left node : Node}
    (h : (signedNumber left).Returns (Reads limit) p node q) :
    Reads limit (.following .signedNumber left) p node q := by
  unfold signedNumber at h
  rw [returns_take] at h
  split at h
  · rename_i signed
    rw [returns_numeral] at h
    obtain ⟨value, written, h⟩ := h
    rw [returns_symbol] at h
    obtain ⟨right, p', found, rfl, rfl⟩ := h
    exact .signedNumber signed written found
  · exact h.elim

theorem reads_send {left node : Node} (h : (send left).Returns (Reads limit) p node q) :
    Reads limit (.following .send left) p node q := by
  unfold send at h
  rw [returns_expect] at h
  obtain ⟨dot, h⟩ := h
  rw [returns_expect] at h
  obtain ⟨named, h⟩ := h
  rw [returns_symbol, returns_bareArgumentList] at h
  obtain ⟨begins, args, p', found, rfl, rfl⟩ | ⟨begins, rfl, rfl⟩ := h
  · exact .sendWith dot named begins found
  · exact .send dot named begins

theorem reads_ternary {left node : Node} (h : (ternary left).Returns (Reads limit) p node q) :
    Reads limit (.following .ternary left) p node q := by
  unfold ternary at h
  rw [returns_expect] at h
  obtain ⟨sign, h⟩ := h
  rw [returns_expression_bind] at h
  obtain ⟨ifTrue, p₁, first, h⟩ := h
  rw [returns_skipLineEnds, returns_expect] at h
  obtain ⟨colon, h⟩ := h
  rw [returns_expression_bind] at h
  obtain ⟨ifFalse, p₂, second, rfl, rfl⟩ := h
  exact .ternary sign first colon second

theorem reads_following {form : FollowingForm} {left node : Node}
    (h : (following form left).Returns (Reads limit) p node q) :
    Reads limit (.following form left) p node q := by
  cases form with
  | assignment => exact reads_assignment h
  | call => exact reads_call h
  | operator => exact reads_operator h
  | signedNumber => exact reads_signedNumber h
  | send => exact reads_send h
  | ternary => exact reads_ternary h

/-! ## Expressions, statements and lists -/

theorem reads_expressionFrom {min : Precedence} {node : Node} (room : p.isFull limit = false)
    (h : (expressionFrom min).Returns (Reads limit) p.opened node q) :
    Reads limit (.expression min) p node q.closed := by
  unfold expressionFrom at h
  rw [returns_skipLineEnds, returns_currentToken] at h
  split at h
  · rename_i form starts
    obtain ⟨left, p₁, first, h⟩ := h
    exact .expression room starts first (returns_phrase.mp h)
  · exact h.elim

theorem reads_continuation {left node : Node} {min : Precedence}
    (h : (continuation left min).Returns (Reads limit) p node q) :
    Reads limit (.continuation left min) p node q := by
  unfold continuation at h
  rw [returns_currentToken] at h
  split at h
  · rename_i tighter
    split at h
    · rename_i form goesOn
      obtain ⟨longer, p₁, first, h⟩ := h
      exact .longer tighter goesOn first (returns_phrase.mp h)
    · rename_i none
      obtain ⟨rfl, rfl⟩ := h
      exact .complete fun _ => none
  · rename_i looser
    obtain ⟨rfl, rfl⟩ := h
    exact .complete fun tighter => absurd tighter looser

theorem reads_statements {terminator : TokenKind} {nodes : List Node}
    (h : (statements terminator).Returns (Reads limit) p nodes q) :
    Reads limit (.statements terminator) p nodes q := by
  unfold statements at h
  rw [returns_skipLineEnds, returns_currentToken] at h
  split at h
  · rename_i ends
    obtain ⟨rfl, rfl⟩ := h
    simp only [Bool.or_eq_true, decide_eq_true_eq] at ends
    exact .noStatement ends
  · rename_i more
    simp only [Bool.or_eq_true, decide_eq_true_eq, not_or] at more
    rw [returns_expression_bind] at h
    obtain ⟨node, p₁, first, h⟩ := h
    rw [returns_endStatement] at h
    obtain ⟨ends, rest, p₂, found, rfl, rfl⟩ := h
    exact .statement more.1 more.2 first ends found

theorem reads_bareArguments {args : List Node} (h : bareArguments.Returns (Reads limit) p args q) :
    Reads limit .bareArguments p args q := by
  unfold bareArguments at h
  rw [returns_expression_bind] at h
  obtain ⟨arg, p₁, first, h⟩ := h
  rw [returns_eat] at h
  obtain ⟨comma, rest, p₂, found, rfl, rfl⟩ | ⟨last, rfl, rfl⟩ := h
  · exact .bareArgument first comma found
  · exact .lastBareArgument first last

theorem reads_arguments {args : List Node} (h : arguments.Returns (Reads limit) p args q) :
    Reads limit .arguments p args q := by
  unfold arguments at h
  rw [returns_expression_bind] at h
  obtain ⟨arg, p₁, first, h⟩ := h
  rw [returns_skipLineEnds, returns_eat] at h
  obtain ⟨comma, rest, p₂, found, rfl, rfl⟩ | ⟨last, h⟩ := h
  · exact .argument first comma found
  · obtain ⟨closing, rfl, rfl⟩ := returns_expect.mp h
    exact .lastArgument first closing

theorem reads_method {params body : List Node}
    (h : method.Returns (Reads limit) (p.withScope .empty) (params, body) q) :
    Reads limit .method p (params, body) (q.withScope p.scope) := by
  unfold method at h
  rw [returns_parameterList] at h
  obtain ⟨ends, h⟩ | ⟨opening, closing, h⟩ | ⟨opening, more, params', p₁, list, h⟩ |
    ⟨noParen, more, params', p₁, list, h⟩ := h
  all_goals
    rw [returns_endStatement, returns_phrase_bind] at h
    obtain ⟨ends', body', p₂, inside, h⟩ := h
    rw [returns_expect] at h
    obtain ⟨closed, e, rfl⟩ := h
    obtain ⟨rfl, rfl⟩ := Prod.mk.inj e
  · exact .methodAlone ends' inside closed
  · exact .methodNone opening closing ends' inside closed
  · exact .methodList opening more list ends' inside closed
  · exact .methodBare noParen more list ends' inside closed

theorem reads_parameter {param : Node} (h : parameter.Returns (Reads limit) p param q) :
    Reads limit .parameter p param q := by
  unfold parameter at h
  rw [returns_currentToken] at h
  split at h
  · rename_i named
    rw [returns_declareLocal] at h
    split at h
    · rename_i new
      obtain ⟨rfl, rfl⟩ := h
      exact .parameter named (by simpa [Names.contains] using new)
    · exact h.elim
  · split at h
    · obtain ⟨node, p', found, h⟩ := h
      exact h.elim
    · exact h.elim

theorem reads_parameters {params : List Node} (h : parameters.Returns (Reads limit) p params q) :
    Reads limit .parameters p params q := by
  unfold parameters at h
  rw [returns_phrase_bind] at h
  obtain ⟨param, p₁, first, h⟩ := h
  rw [returns_skipLineEnds, returns_eat] at h
  obtain ⟨comma, h⟩ | ⟨last, h⟩ := h
  · obtain ⟨rest, p₂, found, rfl, rfl⟩ := h
    exact .furtherParameter first comma found
  · obtain ⟨closing, rfl, rfl⟩ := returns_expect.mp h
    exact .lastParameter first closing

theorem reads_bareParameters {params : List Node}
    (h : bareParameters.Returns (Reads limit) p params q) :
    Reads limit .bareParameters p params q := by
  unfold bareParameters at h
  rw [returns_phrase_bind] at h
  obtain ⟨param, p₁, first, h⟩ := h
  rw [returns_eat] at h
  obtain ⟨comma, rest, p₂, found, rfl, rfl⟩ | ⟨last, rfl, rfl⟩ := h
  · exact .bareParameter first comma found
  · exact .lastBareParameter first last

end Grammar

/-! ## The whole reader -/

/-- A phrase that was read has a derivation. -/
theorem reads_of_attempt {limit : Option Nat} {fuel : Nat} {goal : Goal} {p q : Parser}
    {a : goal.Result} (found : Parser.attempt limit fuel goal p = some (.ok a, q)) :
    Reads limit goal p a q := by
  induction fuel generalizing goal p q with
  | zero => cases found
  | succ fuel ih =>
      have inside {p q : Parser} {a : goal.Result}
          (h : goal.routine.run (Parser.attempt limit fuel) p = some (.ok a, q)) :
          goal.routine.Returns (Reads limit) p a q :=
        (Routine.run_eq_ok_iff.mp h).mono fun _ _ _ _ => ih
      unfold Parser.attempt at found
      cases goal with
      | expression min =>
          simp only [Goal.around] at found
          split at found
          · cases found
          · rename_i room
            obtain ⟨⟨result, p'⟩, read, e⟩ := Option.map_eq_some_iff.mp found
            obtain ⟨rfl, rfl⟩ := Prod.mk.inj e
            exact Grammar.reads_expressionFrom (Bool.eq_false_iff.mpr room) (inside read)
      | method =>
          obtain ⟨⟨result, p'⟩, read, e⟩ := Option.map_eq_some_iff.mp found
          obtain ⟨rfl, rfl⟩ := Prod.mk.inj e
          exact Grammar.reads_method (inside read)
      | leading form => exact Grammar.reads_leading (inside found)
      | following form left => exact Grammar.reads_following (inside found)
      | continuation left min => exact Grammar.reads_continuation (inside found)
      | statements terminator => exact Grammar.reads_statements (inside found)
      | bareArguments => exact Grammar.reads_bareArguments (inside found)
      | arguments => exact Grammar.reads_arguments (inside found)
      | parameter => exact Grammar.reads_parameter (inside found)
      | parameters => exact Grammar.reads_parameters (inside found)
      | bareParameters => exact Grammar.reads_bareParameters (inside found)

end RubyReader
