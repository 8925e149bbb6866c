/-
# `Termination` — reading always ends

Every goal that a rule asks for costs less than its own, because a rule
that has moved on has left a token behind: `routine_safe` collects this for
all rules, together with what each phrase consumes.  So as many phrases
inside each other as the cost says suffice, and `Parser.read` has an outcome
for every goal, at every place, with any limit or none.
-/
import RubyReader.Parser.Progress

namespace RubyReader

namespace Grammar

open Routine Goal

variable {bound : Nat} {c : Cursor}

theorem safe_numeral {token : Token} {text : String} {post : Value → Cursor → Prop}
    (h : ∀ value, post value c) : (numeral token text).Safe bound post c := by
  have outOfRange : ∀ found : Option Value,
      (numeral.orOutOfRange token found).Safe bound post c := by
    rintro (_ | value)
    · exact trivial
    · exact h value
  unfold numeral
  split
  · exact outOfRange _
  · exact outOfRange _
  · exact trivial

theorem safe_bareArgumentList {post : List Node → Cursor → Prop}
    (cost : Goal.bareArguments.cost c < bound)
    (h : ∀ args c', c'.remaining ≤ c.remaining → post args c') :
    bareArgumentList.Safe bound post c := by
  unfold bareArgumentList
  rw [safe_bind, safe_currentToken]
  split
  · refine ⟨cost, fun args c' moved => h args c' ?_⟩
    exact Nat.le_trans (Nat.le_add_right ..) moved
  · exact h [] c (Nat.le_refl _)

theorem safe_argumentList {post : List Node → Cursor → Prop}
    (cost : 5 * c.remaining ≤ bound)
    (h : ∀ args c', c'.remaining + 1 ≤ c.remaining → post args c') :
    argumentList.Safe bound post c := by
  unfold argumentList
  simp only [safe_bind, safe_expect, safe_skipLineEnds, safe_eat]
  intro opening
  have left := Cursor.remaining_advance_of_ne (c := c) (by simp [opening])
  have skipped := Cursor.remaining_skipLines_le c.advance
  split
  · refine h _ _ ?_
    rw [Cursor.remaining_advance]
    omega
  · refine ⟨?_, fun args c' moved => h args c' ?_⟩
    · simp only [Goal.cost, rank]
      omega
    · simp only [Moved, least] at moved
      omega

/-! ## Leading forms -/

/-- What a leading form has read. -/
abbrev Consumed (c : Cursor) : Node → Cursor → Prop := fun _ c' => c'.remaining + 1 ≤ c.remaining

theorem safe_boolean : boolean.Safe bound (Consumed c) c := by
  unfold boolean
  simp only [safe_bind, safe_take]
  have moved : c.current.kind ≠ .eof → c.advance.remaining + 1 ≤ c.remaining := fun h =>
    Nat.le_of_eq (Cursor.remaining_advance_of_ne h)
  split
  · rename_i h
    exact moved (by simp [h])
  · rename_i h
    exact moved (by simp [h])
  · exact trivial

theorem safe_nil : nil.Safe bound (Consumed c) c := by
  unfold nil
  simp only [safe_bind, safe_take]
  split
  · rename_i h
    exact Nat.le_of_eq (Cursor.remaining_advance_of_ne (by simp [h]))
  · exact trivial

theorem safe_number : number.Safe bound (Consumed c) c := by
  unfold number
  simp only [safe_bind, safe_currentToken]
  by_cases h : c.current.kind = .eof
  · simp only [numeral, h]
    exact trivial
  · exact safe_numeral fun _ => Nat.le_of_eq (Cursor.remaining_advance_of_ne h)

theorem safe_symbolLiteral : symbolLiteral.Safe bound (Consumed c) c := by
  unfold symbolLiteral
  simp only [safe_bind, safe_take]
  split
  · rename_i h
    exact Nat.le_of_eq (Cursor.remaining_advance_of_ne (by simp [h]))
  · exact trivial

theorem safe_stringLiteral : stringLiteral.Safe bound (Consumed c) c := by
  unfold stringLiteral
  simp only [safe_bind, safe_take]
  split
  · rename_i h
    exact Nat.le_of_eq (Cursor.remaining_advance_of_ne (by simp [h]))
  · exact trivial

theorem safe_name (enough : 5 * c.remaining ≤ bound) : name.Safe bound (Consumed c) c := by
  unfold name
  simp only [safe_bind, safe_currentToken]
  split
  · rename_i h
    have left := Cursor.remaining_advance_of_ne (c := c) (by simp [h])
    simp only [safe_bind, safe_nextToken, safe_step, safe_knows]
    intro known
    split
    · exact Nat.le_of_eq left
    · unfold selfCall
      simp only [safe_bind, safe_symbol]
      refine safe_bareArgumentList ?_ fun args c' le => ?_
      · simp only [Goal.cost, rank]
        omega
      · show c'.remaining + 1 ≤ c.remaining
        omega
  · exact trivial

theorem safe_group (enough : 5 * c.remaining ≤ bound) : group.Safe bound (Consumed c) c := by
  unfold group
  simp only [safe_bind, safe_expect, safe_skipLineEnds, safe_eat]
  intro opening
  have left := Cursor.remaining_advance_of_ne (c := c) (by simp [opening])
  have skipped := Cursor.remaining_skipLines_le c.advance
  split
  · show c.advance.skipLines.advance.remaining + 1 ≤ c.remaining
    rw [Cursor.remaining_advance]
    omega
  · simp only [Bool.false_eq_true, ↓reduceIte, safe_bind, safe_expression, safe_skipLineEnds,
      safe_expect]
    refine ⟨?_, fun node c' moved closing => ?_⟩
    · simp only [Goal.cost, rank]
      omega
    · show c'.skipLines.advance.remaining + 1 ≤ c.remaining
      have skipped' := Cursor.remaining_skipLines_le c'
      simp only [Moved, least] at moved
      rw [Cursor.remaining_advance]
      omega

theorem safe_definition (enough : 5 * c.remaining ≤ bound) :
    definition.Safe bound (Consumed c) c := by
  unfold definition
  simp only [safe_bind, safe_expect]
  intro opening
  have left := Cursor.remaining_advance_of_ne (c := c) (by simp [opening])
  intro named
  have left' := Cursor.remaining_advance_of_ne (c := c.advance) (by simp [named])
  refine ⟨?_, fun read c' moved => ?_⟩
  · simp only [Goal.cost, rank]
    omega
  · show c'.remaining + 1 ≤ c.remaining
    simp only [Moved, least] at moved
    omega

theorem safe_leading (form : LeadingForm) (enough : 5 * c.remaining ≤ bound) :
    (leading form).Safe bound (Consumed c) c := by
  cases form with
  | boolean => exact safe_boolean
  | nil => exact safe_nil
  | number => exact safe_number
  | symbol => exact safe_symbolLiteral
  | string => exact safe_stringLiteral
  | name => exact safe_name enough
  | group => exact safe_group enough
  | definition => exact safe_definition enough

/-! ## Following forms -/

theorem safe_assignment (left : Node) (enough : 5 * c.remaining ≤ bound) :
    (assignment left).Safe bound (Consumed c) c := by
  unfold assignment
  split
  · simp only [safe_bind, safe_expect, safe_declareLocal, safe_expression]
    intro sign new
    have moved := Cursor.remaining_advance_of_ne (c := c) (by simp [sign])
    refine ⟨?_, fun value c' moved' => ?_⟩
    · simp only [Goal.cost, rank]
      omega
    · show c'.remaining + 1 ≤ c.remaining
      simp only [Moved, least] at moved'
      omega
  · exact trivial

theorem safe_call (left : Node) (enough : 5 * c.remaining ≤ bound) :
    (call left).Safe bound (Consumed c) c := by
  unfold call
  simp only [safe_bind, safe_previousToken]
  split
  · exact trivial
  · split
    · simp only [safe_bind, safe_symbol]
      exact safe_argumentList enough fun args c' le => le
    · simp only [safe_bind]
      exact safe_argumentList enough fun args c' le => le
    · exact trivial

theorem safe_operator (left : Node) (enough : 5 * c.remaining ≤ bound) :
    (operator left).Safe bound (Consumed c) c := by
  unfold operator
  simp only [safe_bind, safe_take]
  split
  · rename_i name h
    have moved := Cursor.remaining_advance_of_ne (c := c)
      (fun e => by simp [e, TokenKind.operator?] at h)
    simp only [safe_bind, safe_symbol, safe_expression]
    refine ⟨?_, fun right c' moved' => ?_⟩
    · simp only [Goal.cost, rank]
      omega
    · show c'.remaining + 1 ≤ c.remaining
      simp only [Moved, least] at moved'
      omega
  · exact trivial

theorem safe_signedNumber (left : Node) (enough : 5 * c.remaining ≤ bound) :
    (signedNumber left).Safe bound (Consumed c) c := by
  unfold signedNumber
  simp only [safe_bind, safe_take]
  split
  · by_cases h : c.current.kind = .eof
    · simp only [numeral, h]
      exact trivial
    · have moved := Cursor.remaining_advance_of_ne h
      simp only [safe_bind]
      refine safe_numeral fun value => ?_
      simp only [safe_symbol]
      refine ⟨?_, fun right c' moved' => ?_⟩
      · simp only [Goal.cost, rank]
        omega
      · show c'.remaining + 1 ≤ c.remaining
        simp only [Moved, least] at moved'
        omega
  · exact trivial

theorem safe_send (left : Node) (enough : 5 * c.remaining ≤ bound) :
    (send left).Safe bound (Consumed c) c := by
  unfold send
  simp only [safe_bind, safe_expect, safe_symbol]
  intro dot
  have moved := Cursor.remaining_advance_of_ne (c := c) (by simp [dot])
  intro named
  have moved' := Cursor.remaining_advance_of_ne (c := c.advance) (by simp [named])
  refine safe_bareArgumentList ?_ fun args c' le => ?_
  · simp only [Goal.cost, rank]
    omega
  · show c'.remaining + 1 ≤ c.remaining
    omega

theorem safe_ternary (left : Node) (enough : 5 * c.remaining ≤ bound) :
    (ternary left).Safe bound (Consumed c) c := by
  unfold ternary
  simp only [safe_bind, safe_expect, safe_expression, safe_skipLineEnds]
  intro sign
  have moved := Cursor.remaining_advance_of_ne (c := c) (by simp [sign])
  refine ⟨?_, fun ifTrue c' moved' => ?_⟩
  · simp only [Goal.cost, rank]
    omega
  · intro colon
    have skipped := Cursor.remaining_skipLines_le c'
    have step := Cursor.remaining_advance c'.skipLines
    simp only [Moved, least] at moved'
    refine ⟨?_, fun ifFalse c'' moved'' => ?_⟩
    · simp only [Goal.cost, rank]
      omega
    · show c''.remaining + 1 ≤ c.remaining
      simp only [Moved, least] at moved''
      omega

theorem safe_following (form : FollowingForm) (left : Node) (enough : 5 * c.remaining ≤ bound) :
    (following form left).Safe bound (Consumed c) c := by
  cases form with
  | assignment => exact safe_assignment left enough
  | call => exact safe_call left enough
  | operator => exact safe_operator left enough
  | signedNumber => exact safe_signedNumber left enough
  | send => exact safe_send left enough
  | ternary => exact safe_ternary left enough

/-! ## Expressions and statements -/

theorem safe_expressionFrom (min : Precedence) (enough : 5 * c.remaining + 2 ≤ bound) :
    (expressionFrom min).Safe bound (Consumed c) c := by
  unfold expressionFrom
  simp only [safe_bind, safe_skipLineEnds, safe_currentToken]
  have skipped := Cursor.remaining_skipLines_le c
  split
  · simp only [safe_bind]
    refine ⟨?_, fun left c₁ moved => ⟨?_, fun node c₂ moved' => ?_⟩⟩
    · simp only [Goal.cost, rank]
      omega
    · simp only [Moved, least] at moved
      simp only [Goal.cost, rank]
      omega
    · show c₂.remaining + 1 ≤ c.remaining
      simp only [Moved, least] at moved moved'
      omega
  · exact trivial

theorem safe_continuation (left : Node) (min : Precedence) (enough : 5 * c.remaining + 1 ≤ bound) :
    (continuation left min).Safe bound (fun _ c' => c'.remaining ≤ c.remaining) c := by
  unfold continuation
  simp only [safe_bind, safe_currentToken]
  split
  · split
    · simp only [safe_bind]
      refine ⟨?_, fun longer c₁ moved => ⟨?_, fun node c₂ moved' => ?_⟩⟩
      · simp only [Goal.cost, rank]
        omega
      · simp only [Moved, least] at moved
        simp only [Goal.cost, rank]
        omega
      · show c₂.remaining ≤ c.remaining
        simp only [Moved, least] at moved moved'
        omega
    · exact Nat.le_refl _
  · exact Nat.le_refl _

theorem safe_statements (terminator : TokenKind) (enough : 5 * c.remaining + 3 ≤ bound) :
    (statements terminator).Safe bound (fun _ c' => c'.remaining ≤ c.remaining) c := by
  unfold statements
  simp only [safe_bind, safe_skipLineEnds, safe_currentToken]
  have skipped := Cursor.remaining_skipLines_le c
  split
  · exact skipped
  · simp only [safe_bind, safe_expression]
    refine ⟨?_, fun statement c₁ moved => safe_endStatement fun c₂ le => ?_⟩
    · simp only [Goal.cost, rank]
      omega
    · simp only [Moved, least] at moved
      refine ⟨?_, fun rest c₃ moved' => ?_⟩
      · simp only [Goal.cost, rank]
        omega
      · show c₃.remaining ≤ c.remaining
        simp only [Moved, least] at moved'
        omega

/-! ## Argument and parameter lists -/

theorem safe_bareArguments (enough : 5 * c.remaining + 3 ≤ bound) :
    bareArguments.Safe bound (fun _ c' => c'.remaining + 1 ≤ c.remaining) c := by
  unfold bareArguments
  simp only [safe_bind, safe_expression, safe_eat]
  refine ⟨?_, fun argument c₁ moved => ?_⟩
  · simp only [Goal.cost, rank]
    omega
  · simp only [Moved, least] at moved
    split
    · rename_i comma
      have left := Cursor.remaining_advance_of_ne (c := c₁) (by simp [comma])
      refine ⟨?_, fun rest c₂ moved' => ?_⟩
      · simp only [Goal.cost, rank]
        omega
      · show c₂.remaining + 1 ≤ c.remaining
        simp only [Moved, least] at moved'
        omega
    · exact moved

theorem safe_arguments (enough : 5 * c.remaining + 3 ≤ bound) :
    arguments.Safe bound (fun _ c' => c'.remaining + 1 ≤ c.remaining) c := by
  unfold arguments
  simp only [safe_bind, safe_expression, safe_skipLineEnds, safe_eat]
  refine ⟨?_, fun argument c₁ moved => ?_⟩
  · simp only [Goal.cost, rank]
    omega
  · simp only [Moved, least] at moved
    have skipped := Cursor.remaining_skipLines_le c₁
    have step := Cursor.remaining_advance c₁.skipLines
    split
    · rename_i comma
      have left := Cursor.remaining_advance_of_ne (c := c₁.skipLines) (by simp [comma])
      refine ⟨?_, fun rest c₂ moved' => ?_⟩
      · simp only [Goal.cost, rank]
        omega
      · show c₂.remaining + 1 ≤ c.remaining
        simp only [Moved, least] at moved'
        omega
    · simp only [Bool.false_eq_true, ↓reduceIte, safe_bind, safe_expect, safe_pure]
      intro closing
      omega

theorem safe_parameter (enough : 5 * c.remaining + 1 ≤ bound) :
    parameter.Safe bound (Consumed c) c := by
  unfold parameter
  simp only [safe_bind, safe_currentToken]
  split
  · rename_i named
    simp only [safe_bind, safe_declareLocal]
    intro new
    split
    · exact Nat.le_of_eq (Cursor.remaining_advance_of_ne (by simp [named]))
    · exact trivial
  · split
    · refine ⟨?_, fun node c' moved => trivial⟩
      simp only [Goal.cost, rank]
      omega
    · exact trivial

theorem safe_parameters (enough : 5 * c.remaining + 2 ≤ bound) :
    parameters.Safe bound (fun _ c' => c'.remaining + 1 ≤ c.remaining) c := by
  unfold parameters
  simp only [safe_bind]
  refine ⟨?_, fun first c₁ moved => ?_⟩
  · simp only [Goal.cost, rank]
    omega
  · simp only [Moved, least] at moved
    simp only [safe_done, safe_skipLineEnds, safe_eat]
    have skipped := Cursor.remaining_skipLines_le c₁
    have step := Cursor.remaining_advance c₁.skipLines
    split
    · rename_i comma
      have left := Cursor.remaining_advance_of_ne (c := c₁.skipLines) (by simp [comma])
      have skipped' := Cursor.remaining_skipLines_le c₁.skipLines.advance
      refine ⟨?_, fun rest c₂ moved' => ?_⟩
      · simp only [Goal.cost, rank]
        omega
      · show c₂.remaining + 1 ≤ c.remaining
        simp only [Moved, least] at moved'
        omega
    · simp only [Bool.false_eq_true, ↓reduceIte, safe_bind, safe_expect, safe_pure]
      intro closing
      omega

theorem safe_bareParameters (enough : 5 * c.remaining + 2 ≤ bound) :
    bareParameters.Safe bound (fun _ c' => c'.remaining + 1 ≤ c.remaining) c := by
  unfold bareParameters
  simp only [safe_bind]
  refine ⟨?_, fun first c₁ moved => ?_⟩
  · simp only [Goal.cost, rank]
    omega
  · simp only [Moved, least] at moved
    simp only [safe_done, safe_eat]
    split
    · rename_i comma
      have left := Cursor.remaining_advance_of_ne (c := c₁) (by simp [comma])
      refine ⟨?_, fun rest c₂ moved' => ?_⟩
      · simp only [Goal.cost, rank]
        omega
      · show c₂.remaining + 1 ≤ c.remaining
        simp only [Moved, least] at moved'
        omega
    · exact moved

/-! ## Methods -/

theorem safe_parameterList {post : List Node → Cursor → Prop} (enough : 5 * c.remaining + 3 ≤ bound)
    (h : ∀ params c', c'.remaining ≤ c.remaining → post params c') :
    parameterList.Safe bound post c := by
  unfold parameterList
  simp only [safe_bind, safe_currentToken]
  split
  · unfold parenthesizedParameters
    simp only [safe_bind, safe_expect, safe_skipLineEnds, safe_eat]
    intro opening
    have left := Cursor.remaining_advance_of_ne (c := c) (by simp [opening])
    have skipped := Cursor.remaining_skipLines_le c.advance
    have step := Cursor.remaining_advance c.advance.skipLines
    split
    · refine h _ _ ?_
      omega
    · refine ⟨?_, fun params c' moved => h params c' ?_⟩
      · simp only [Goal.cost, rank]
        omega
      · simp only [Moved, least] at moved
        omega
  · exact h _ _ (Nat.le_refl _)
  · exact h _ _ (Nat.le_refl _)
  · exact h _ _ (Nat.le_refl _)
  · refine ⟨?_, fun params c' moved => h params c' ?_⟩
    · simp only [Goal.cost, rank]
      omega
    · simp only [Moved, least] at moved
      omega

theorem safe_method (enough : 5 * c.remaining + 4 ≤ bound) :
    method.Safe bound (fun _ c' => c'.remaining ≤ c.remaining) c := by
  unfold method
  simp only [safe_bind]
  refine safe_parameterList (by omega) fun params c₁ le => ?_
  refine safe_endStatement fun c₂ le' => ?_
  refine ⟨?_, fun body c₃ moved => ?_⟩
  · simp only [Goal.cost, rank]
    omega
  · simp only [Moved, least] at moved
    have step := Cursor.remaining_advance c₃
    simp only [safe_expect, safe_pure]
    intro closing
    omega

end Grammar

/-! ## Every goal has an outcome -/

/-- The rule of a goal asks only for cheaper goals, and consumes what the
goal says. -/
theorem routine_safe (goal : Goal) (c : Cursor) :
    goal.routine.Safe (goal.cost c) (fun _ c' => goal.Moved c c') c := by
  cases goal with
  | expression min => exact Grammar.safe_expressionFrom min (Nat.le_refl _)
  | leading form => exact Grammar.safe_leading form (Nat.le_refl _)
  | following form left => exact Grammar.safe_following form left (Nat.le_refl _)
  | continuation left min => exact Grammar.safe_continuation left min (Nat.le_refl _)
  | statements terminator => exact Grammar.safe_statements terminator (Nat.le_refl _)
  | bareArguments => exact Grammar.safe_bareArguments (Nat.le_refl _)
  | arguments => exact Grammar.safe_arguments (Nat.le_refl _)
  | method => exact Grammar.safe_method (Nat.le_refl _)
  | parameter => exact Grammar.safe_parameter (Nat.le_refl _)
  | parameters => exact Grammar.safe_parameters (Nat.le_refl _)
  | bareParameters => exact Grammar.safe_bareParameters (Nat.le_refl _)

namespace Goal

/-- What is put around a phrase leaves its outcome and its tokens alone. -/
theorem around_total {limit : Option Nat} {goal : Goal}
    {body : Parser → Option (Outcome goal.Result)} {p : Parser}
    (h : ∀ p' : Parser, p'.cursor = p.cursor → ∃ result q,
      body p' = some (result, q) ∧ ∀ a, result = .ok a → goal.Moved p.cursor q.cursor) :
    ∃ result q, goal.around limit body p = some (result, q) ∧
      ∀ a, result = .ok a → goal.Moved p.cursor q.cursor := by
  cases goal with
  | expression min =>
    by_cases full : p.isFull limit = true
    · exact ⟨p.refuse.1, p, by simp [around, full, Parser.refuse], fun a e => by cases e⟩
    · obtain ⟨result, q, eq, moved⟩ := h p.opened rfl
      exact ⟨result, q.closed, by simp [around, full, eq], moved⟩
  | method =>
    obtain ⟨result, q, eq, moved⟩ := h (p.withScope .empty) rfl
    exact ⟨result, q.withScope p.scope, by simp [around, eq], moved⟩
  | _ => exact h p rfl

end Goal

namespace Parser

/-- With more fuel than its cost, a goal has an outcome. -/
theorem attempt_total (limit : Option Nat) (fuel : Nat) (goal : Goal) (p : Parser)
    (enough : goal.cost p.cursor < fuel) :
    ∃ result q, attempt limit fuel goal p = some (result, q) ∧
      ∀ a, result = .ok a → goal.Moved p.cursor q.cursor := by
  induction fuel generalizing goal p with
  | zero => exact absurd enough (Nat.not_lt_zero _)
  | succ fuel ih =>
    refine Goal.around_total fun p' same => ?_
    rw [← same]
    refine Routine.run_of_safe (fun goal' p'' cheaper => ih goal' p'' ?_)
      (routine_safe goal p'.cursor)
    rw [same] at cheaper
    omega

theorem attempt_isSome (limit : Option Nat) (goal : Goal) (p : Parser) :
    (attempt limit (goal.cost p.cursor + 1) goal p).isSome := by
  obtain ⟨result, q, eq, _⟩ := attempt_total limit _ goal p (Nat.lt_succ_self _)
  rw [eq]
  rfl

/-- Reads a phrase at the cursor, with at most `limit` expressions open. -/
def read (limit : Option Nat) (goal : Goal) (p : Parser) : Outcome goal.Result :=
  (attempt limit (goal.cost p.cursor + 1) goal p).get (attempt_isSome limit goal p)

end Parser
end RubyReader
