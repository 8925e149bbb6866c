/-
# `Requests` — how a rule may fail, and what it may ask for

Whatever a rule sees, and whatever the phrases inside it are read as, some errors
are never its own, and some goals it never asks for.  `Only` says so of a routine,
over all ways through it, and every rule is checked once (`routine_only`):

    no rule fails because too many expressions are open
    the leading and following forms that a rule opens are paid from the reserve
    of its goal, until an expression or a parameter is opened

An expression begins with one form and is continued by one at a time, and a signed
number goes on as the right operand of its sign; what is open there is two forms, and
not three, since behind the sign of a signed number no other one follows.
-/
import RubyReader.Parser.Unfold

namespace RubyReader

/-- An error that says that too many expressions are open. -/
def ParseError.IsRefusal (error : ParseError) : Prop :=
  ∃ token : Token, error = .malformed (.blame .nestedTooDeeply token)

/-! ## Goals inside goals -/

namespace Goal

/-- The number of leading and following forms that a goal can open inside each
other, without an expression or a parameter between them. -/
def reserve : Goal → Nat
  | .expression _ => 2
  | .continuation _ min => if min < .sum then 2 else 1
  | .following .signedNumber _ | .parameter => 1
  | _ => 0

/-- What a goal may ask for: expressions and parameters, forms that its reserve
pays, and what has no more in reserve than itself. -/
def Admits (outer : Goal) : Goal → Prop
  | .expression _ | .parameter => True
  | .leading form => (leading form).reserve < outer.reserve
  | .following form left => (following form left).reserve < outer.reserve
  | inner => inner.reserve ≤ outer.reserve

end Goal

namespace Routine

variable {α β : Type}

/-- Whatever a routine sees and whatever is read for it, it does not refuse, and asks
only for some goals. -/
def Only (goals : Goal → Prop) : Routine α → Prop
  | .done _ => True
  | .fail error => ¬ error.IsRefusal
  | .current go => ∀ token, Only goals (go token)
  | .next go => ∀ token, Only goals (go token)
  | .previous go => ∀ token, Only goals (go token)
  | .advance go => Only goals go
  | .skipLines go => Only goals go
  | .isLocal _ go => ∀ known, Only goals (go known)
  | .declare _ go => ∀ new, Only goals (go new)
  | .intern _ go => Only goals go
  | .read goal go => goals goal ∧ ∀ result, Only goals (go result)

variable {goals : Goal → Prop}

theorem Only.bind {r : Routine α} {k : α → Routine β} (first : r.Only goals)
    (next : ∀ a, (k a).Only goals) : (r >>= k).Only goals := by
  show (r.bind k).Only goals
  induction r with
  | done a => exact next a
  | fail => exact first
  | current go ih => exact fun token => ih token (first token)
  | next go ih => exact fun token => ih token (first token)
  | previous go ih => exact fun token => ih token (first token)
  | advance go ih => exact ih first
  | skipLines go ih => exact ih first
  | isLocal _ go ih => exact fun known => ih known (first known)
  | declare _ go ih => exact fun new => ih new (first new)
  | intern _ go ih => exact ih first
  | read goal go ih => exact ⟨first.1, fun result => ih result (first.2 result)⟩

/-! ### The steps that rules are made of -/

theorem only_pure (a : α) : (pure a : Routine α).Only goals := trivial

theorem only_currentToken : currentToken.Only goals := fun _ => trivial

theorem only_nextToken : nextToken.Only goals := fun _ => trivial

theorem only_previousToken : previousToken.Only goals := fun _ => trivial

theorem only_step : step.Only goals := trivial

theorem only_skipLineEnds : skipLineEnds.Only goals := trivial

theorem only_knows (name : String) : (knows name).Only goals := fun _ => trivial

theorem only_declareLocal (name : String) : (declareLocal name).Only goals := fun _ => trivial

theorem only_symbol (name : String) : (symbol name).Only goals := trivial

theorem only_take : take.Only goals := fun _ => trivial

theorem only_phrase {goal : Goal} (asked : goals goal) : (phrase goal).Only goals :=
  ⟨asked, fun _ => trivial⟩

theorem only_expression {min : Precedence} (asked : goals (.expression min)) :
    (expression min).Only goals := only_phrase asked

theorem only_unexpected (expected : Expectation) :
    (unexpected expected : Routine α).Only goals := by
  rintro token ⟨blamed, e⟩
  cases e

theorem only_misrouted (rule : TokenRule) (token : Token) :
    (misrouted rule token : Routine α).Only goals := by
  rintro ⟨blamed, e⟩
  cases e

theorem only_expect (kind : TokenKind) (within : Construct) :
    (expect kind within).Only goals := by
  refine .bind only_currentToken fun token => ?_
  split
  · exact only_take
  · exact only_unexpected _

theorem only_eat (kind : TokenKind) : (eat kind).Only goals := by
  refine .bind only_currentToken fun token => ?_
  split <;> trivial

theorem only_endStatement : endStatement.Only goals := by
  refine .bind only_currentToken fun token => ?_
  split
  · exact only_skipLineEnds
  · exact only_pure ()
  · exact only_pure ()
  · exact only_unexpected _

end Routine

/-! ## The rules of the grammar -/

namespace Grammar

open Routine

variable {goals : Goal → Prop}

theorem only_numeral (token : Token) (text : String) : (numeral token text).Only goals := by
  have worked (found : Option Value) : (numeral.orOutOfRange token found).Only goals := by
    cases found with
    | some value => exact only_pure value
    | none =>
        rintro ⟨blamed, e⟩
        cases e
  unfold numeral
  split
  · exact worked _
  · exact worked _
  · exact only_misrouted _ _

theorem only_bareArgumentList (list : goals .bareArguments) : bareArgumentList.Only goals := by
  refine .bind only_currentToken fun token => ?_
  split
  · exact only_phrase list
  · exact only_pure []

theorem only_argumentList (list : goals .arguments) : argumentList.Only goals := by
  refine .bind (only_expect _ _) fun _ => .bind only_skipLineEnds fun _ =>
    .bind (only_eat _) fun eaten => ?_
  split
  · exact only_pure []
  · exact only_phrase list

theorem only_boolean : boolean.Only goals := by
  refine .bind only_take fun token => ?_
  split
  · exact only_pure _
  · exact only_pure _
  · exact only_misrouted _ _

theorem only_nil : nil.Only goals := by
  refine .bind only_take fun token => ?_
  split
  · exact only_pure _
  · exact only_misrouted _ _

theorem only_number : number.Only goals :=
  .bind only_currentToken fun _ => .bind (only_numeral _ _) fun _ =>
    .bind only_step fun _ => only_pure _

theorem only_symbolLiteral : symbolLiteral.Only goals := by
  refine .bind only_take fun token => ?_
  split
  · exact .bind (only_symbol _) fun _ => only_pure _
  · exact only_misrouted _ _

theorem only_stringLiteral : stringLiteral.Only goals := by
  refine .bind only_take fun token => ?_
  split
  · exact only_pure _
  · exact only_misrouted _ _

theorem only_name (list : goals .bareArguments) : name.Only goals := by
  refine .bind only_currentToken fun token => ?_
  split
  · refine .bind only_nextToken fun behind => .bind only_step fun _ =>
      .bind (only_knows _) fun isLocal => ?_
    split
    · exact only_pure _
    · exact .bind (only_symbol _) fun _ => .bind (only_bareArgumentList list) fun _ => only_pure _
  · exact only_misrouted _ _

theorem only_group (inner : goals (.expression .lowest)) : group.Only goals := by
  refine .bind (only_expect _ _) fun opening => .bind only_skipLineEnds fun _ =>
    .bind (only_eat _) fun eaten => ?_
  split
  · exact only_pure _
  · exact .bind (only_expression inner) fun _ => .bind only_skipLineEnds fun _ =>
      .bind (only_expect _ _) fun _ => only_pure _

theorem only_definition (method : goals .method) : definition.Only goals :=
  .bind (only_expect _ _) fun _ => .bind (only_expect _ _) fun _ =>
    .bind (only_phrase method) fun _ => only_pure _

theorem only_leading (form : LeadingForm) :
    (leading form).Only (Goal.leading form).Admits := by
  cases form with
  | boolean => exact only_boolean
  | nil => exact only_nil
  | number => exact only_number
  | symbol => exact only_symbolLiteral
  | string => exact only_stringLiteral
  | name => exact only_name (Nat.le_refl 0)
  | group => exact only_group trivial
  | definition => exact only_definition (Nat.le_refl 0)

theorem only_assignment (value : goals (.expression .lowest)) (left : Node) :
    (assignment left).Only goals := by
  unfold assignment
  split
  · exact .bind (only_expect _ _) fun _ => .bind (only_declareLocal _) fun _ =>
      .bind (only_expression value) fun _ => only_pure _
  · exact only_unexpected _

theorem only_call (list : goals .arguments) (left : Node) : (call left).Only goals := by
  refine .bind only_previousToken fun before => ?_
  split
  · exact only_unexpected _
  · split
    · exact .bind (only_symbol _) fun _ => .bind (only_argumentList list) fun _ => only_pure _
    · exact .bind (only_argumentList list) fun _ => only_pure _
    · exact only_unexpected _

theorem only_operator (right : ∀ min, goals (.expression min)) (left : Node) :
    (operator left).Only goals := by
  refine .bind only_take fun token => ?_
  split
  · exact .bind (only_symbol _) fun _ => .bind (only_expression (right _)) fun _ => only_pure _
  · exact only_misrouted _ _

theorem only_signedNumber (right : ∀ number, goals (.continuation number .sum)) (left : Node) :
    (signedNumber left).Only goals := by
  refine .bind only_take fun token => ?_
  split
  · exact .bind (only_numeral _ _) fun _ => .bind (only_symbol _) fun _ =>
      .bind (only_phrase (right _)) fun _ => only_pure _
  · exact only_misrouted _ _

theorem only_send (list : goals .bareArguments) (left : Node) : (send left).Only goals :=
  .bind (only_expect _ _) fun _ => .bind (only_expect _ _) fun _ => .bind (only_symbol _) fun _ =>
    .bind (only_bareArgumentList list) fun _ => only_pure _

theorem only_ternary (branch : goals (.expression .lowest)) (left : Node) :
    (ternary left).Only goals :=
  .bind (only_expect _ _) fun _ => .bind (only_expression branch) fun _ =>
    .bind only_skipLineEnds fun _ => .bind (only_expect _ _) fun _ =>
      .bind (only_expression branch) fun _ => only_pure _

theorem only_following (form : FollowingForm) (left : Node) :
    (following form left).Only (Goal.following form left).Admits := by
  cases form with
  | assignment => exact only_assignment trivial left
  | call => exact only_call (Nat.le_refl 0) left
  | operator => exact only_operator (fun _ => trivial) left
  | signedNumber => exact only_signedNumber (fun _ => Nat.le_refl 1) left
  | send => exact only_send (Nat.le_refl 0) left
  | ternary => exact only_ternary trivial left

theorem only_expressionFrom (min : Precedence) :
    (expressionFrom min).Only (Goal.expression min).Admits := by
  refine .bind only_skipLineEnds fun _ => .bind only_currentToken fun token => ?_
  split
  · refine .bind (only_phrase (Nat.zero_lt_succ 1)) fun left => only_phrase ?_
    show (if min < .sum then 2 else 1) ≤ 2
    split
    · exact Nat.le_refl 2
    · exact Nat.le_succ 1
  · exact only_unexpected _

/-- A token that goes on with a signed number binds no tighter than a sum. -/
theorem reserve_following_lt {token : Token} {form : FollowingForm} {min : Precedence}
    (tighter : min < token.precedence) (follows : token.kind.following? = some form)
    (left node : Node) :
    (Goal.following form left).reserve < (Goal.continuation node min).reserve := by
  by_cases loose : min < .sum
  · cases form <;> simp [Goal.reserve, loose]
  · cases form with
    | signedNumber =>
        have sum : token.precedence.rank ≤ Precedence.sum.rank := by
          unfold Token.precedence
          cases kind : token.kind <;> rw [kind] at follows <;>
            simp [TokenKind.following?] at follows
          · dsimp only
            split <;> decide
          · dsimp only
            split <;> decide
        exact absurd (Nat.lt_of_lt_of_le tighter sum) loose
    | _ => simp [Goal.reserve, loose]

theorem only_continuation (left : Node) (min : Precedence) :
    (continuation left min).Only (Goal.continuation left min).Admits := by
  refine .bind only_currentToken fun token => ?_
  split
  · rename_i tighter
    split
    · rename_i form follows
      exact .bind (only_phrase (reserve_following_lt tighter follows left left)) fun longer =>
        only_phrase (Nat.le_refl _)
    · exact only_pure _
  · exact only_pure _

theorem only_statements (terminator : TokenKind) :
    (statements terminator).Only (Goal.statements terminator).Admits := by
  refine .bind only_skipLineEnds fun _ => .bind only_currentToken fun token => ?_
  split
  · exact only_pure _
  · exact .bind (only_expression trivial) fun _ => .bind only_endStatement fun _ =>
      .bind (only_phrase (Nat.le_refl 0)) fun _ => only_pure _

theorem only_bareArguments : bareArguments.Only Goal.bareArguments.Admits := by
  refine .bind (only_expression trivial) fun _ => .bind (only_eat _) fun eaten => ?_
  split
  · exact .bind (only_phrase (Nat.le_refl 0)) fun _ => only_pure _
  · exact only_pure _

theorem only_arguments : arguments.Only Goal.arguments.Admits := by
  refine .bind (only_expression trivial) fun _ => .bind only_skipLineEnds fun _ =>
    .bind (only_eat _) fun eaten => ?_
  split
  · exact .bind (only_phrase (Nat.le_refl 0)) fun _ => only_pure _
  · exact .bind (only_expect _ _) fun _ => only_pure _

theorem only_parameterList (list : goals .parameters) (bare : goals .bareParameters) :
    parameterList.Only goals := by
  refine .bind only_currentToken fun token => ?_
  split
  · refine .bind (only_expect _ _) fun _ => .bind only_skipLineEnds fun _ =>
      .bind (only_eat _) fun eaten => ?_
    split
    · exact only_pure _
    · exact only_phrase list
  · exact only_pure _
  · exact only_pure _
  · exact only_pure _
  · exact only_phrase bare

theorem only_method : method.Only Goal.method.Admits :=
  .bind (only_parameterList (Nat.le_refl 0) (Nat.le_refl 0)) fun _ =>
    .bind only_endStatement fun _ => .bind (only_phrase (Nat.le_refl 0)) fun _ =>
      .bind (only_expect _ _) fun _ => only_pure _

theorem only_parameter : parameter.Only Goal.parameter.Admits := by
  refine .bind only_currentToken fun token => ?_
  split
  · refine .bind (only_declareLocal _) fun isNew => ?_
    split
    · exact .bind only_step fun _ => only_pure _
    · rintro ⟨blamed, e⟩
      cases e
  · split
    · refine .bind (only_phrase (Nat.zero_lt_succ 0)) fun node => ?_
      rintro ⟨blamed, e⟩
      cases e
    · exact only_unexpected _

theorem only_parameters : parameters.Only Goal.parameters.Admits := by
  refine .bind (only_phrase trivial) fun _ => .bind only_skipLineEnds fun _ =>
    .bind (only_eat _) fun eaten => ?_
  split
  · exact .bind only_skipLineEnds fun _ => .bind (only_phrase (Nat.le_refl 0)) fun _ =>
      only_pure _
  · exact .bind (only_expect _ _) fun _ => only_pure _

theorem only_bareParameters : bareParameters.Only Goal.bareParameters.Admits := by
  refine .bind (only_phrase trivial) fun _ => .bind (only_eat _) fun eaten => ?_
  split
  · exact .bind (only_phrase (Nat.le_refl 0)) fun _ => only_pure _
  · exact only_pure _

end Grammar

/-- No rule refuses, and each asks only for goals that its own admits. -/
theorem Goal.routine_only (goal : Goal) : goal.routine.Only goal.Admits := by
  cases goal with
  | expression min => exact Grammar.only_expressionFrom min
  | leading form => exact Grammar.only_leading form
  | following form left => exact Grammar.only_following form left
  | continuation left min => exact Grammar.only_continuation left min
  | statements terminator => exact Grammar.only_statements terminator
  | bareArguments => exact Grammar.only_bareArguments
  | arguments => exact Grammar.only_arguments
  | method => exact Grammar.only_method
  | parameter => exact Grammar.only_parameter
  | parameters => exact Grammar.only_parameters
  | bareParameters => exact Grammar.only_bareParameters

end RubyReader
