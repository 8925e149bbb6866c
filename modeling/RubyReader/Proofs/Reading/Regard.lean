/-
# `Regard` — what a rule has regard to

Of the variables in scope a rule asks only for those whose names it has read: for the name
at which it stands, or for the one that the operand in front of it is.  `Regards` says so of
a routine, over all ways through it, and every rule is checked once (`routine_regards`).

A leading form has regard to nothing that stands before it, since it moves on at once
(`Enters`).
-/
import RubyReader.Parser.Unfold

namespace RubyReader

/-! ## Relevant names -/

section

variable (relevant : String → Prop)

/-- If a token is a name, it is a relevant one. -/
def Token.Relevant (token : Token) : Prop := token.kind = .identifier → relevant token.literal

/-- If a node is a name, it is a relevant one. -/
def Node.Relevant : Node → Prop
  | .identifier name _ => relevant name.name
  | _ => True

/-- What a goal goes on from is relevant. -/
def Goal.Regards : Goal → Prop
  | .following _ left | .continuation left _ => left.Relevant relevant
  | _ => True

/-- What is read for a goal, if it may be gone on from, is relevant. -/
def Goal.Relevant : (goal : Goal) → goal.Result → Prop
  | .expression _, node | .leading _, node | .following .., node | .continuation .., node =>
    node.Relevant relevant
  | _, _ => True

end

namespace Routine

/-- Where all names among the tokens are relevant, a routine asks for no other ones, and
what it comes back with is as `post` says. -/
def Regards {α : Type} (relevant : String → Prop) (post : α → Prop) : Routine α → Prop
  | .done a => post a
  | .fail _ => True
  | .current go => ∀ token : Token, token.Relevant relevant → Regards relevant post (go token)
  | .next go => ∀ token : Token, token.Relevant relevant → Regards relevant post (go token)
  | .previous go => ∀ token, Regards relevant post (go token)
  | .advance go => Regards relevant post go
  | .skipLines go => Regards relevant post go
  | .isLocal name go => relevant name ∧ ∀ known, Regards relevant post (go known)
  | .declare name go => relevant name ∧ ∀ new, Regards relevant post (go new)
  | .intern _ go => Regards relevant post go
  | .read goal go =>
    goal.Regards relevant ∧ ∀ a, goal.Relevant relevant a → Regards relevant post (go a)

variable {α β : Type} {relevant : String → Prop} {post : α → Prop} {post' : β → Prop}

theorem Regards.bind {r : Routine α} {k : α → Routine β} (first : r.Regards relevant post)
    (next : ∀ a, post a → (k a).Regards relevant post') : (r >>= k).Regards relevant post' := by
  show (r.bind k).Regards relevant post'
  induction r with
  | done a => exact next a first
  | fail => trivial
  | current go ih => exact fun token known => ih token (first token known)
  | next go ih => exact fun token known => ih token (first token known)
  | previous go ih => exact fun token => ih token (first token)
  | advance go ih => exact ih first
  | skipLines go ih => exact ih first
  | isLocal name go ih => exact ⟨first.1, fun known => ih known (first.2 known)⟩
  | declare name go ih => exact ⟨first.1, fun new => ih new (first.2 new)⟩
  | intern name go ih => exact ih first
  | read goal go ih => exact ⟨first.1, fun a known => ih a (first.2 a known)⟩

/-! ### The steps that rules are made of -/

/-- Whatever a routine comes back with. -/
abbrev Mindful (relevant : String → Prop) (r : Routine α) : Prop :=
  r.Regards relevant fun _ => True

theorem regards_pure {a : α} (h : post a) : (pure a : Routine α).Regards relevant post := h

theorem regards_currentToken : currentToken.Regards relevant (Token.Relevant relevant) :=
  fun _ known => known

theorem regards_nextToken : nextToken.Regards relevant (Token.Relevant relevant) :=
  fun _ known => known

theorem regards_previousToken : previousToken.Mindful relevant := fun _ => trivial

theorem regards_step : step.Mindful relevant := trivial

theorem regards_skipLineEnds : skipLineEnds.Mindful relevant := trivial

theorem regards_knows {name : String} (known : relevant name) :
    (knows name).Mindful relevant := ⟨known, fun _ => trivial⟩

theorem regards_declareLocal {name : String} (known : relevant name) :
    (declareLocal name).Mindful relevant := ⟨known, fun _ => trivial⟩

theorem regards_symbol (name : String) : (symbol name).Mindful relevant := trivial

theorem regards_take : take.Regards relevant (Token.Relevant relevant) := fun _ known => known

theorem regards_phrase {goal : Goal} (asked : goal.Regards relevant) :
    (phrase goal).Regards relevant (goal.Relevant relevant) := ⟨asked, fun _ known => known⟩

theorem regards_expression (min : Precedence) :
    (expression min).Regards relevant (Node.Relevant relevant) := regards_phrase trivial

theorem regards_unexpected (expected : Expectation) :
    (unexpected expected : Routine α).Regards relevant post := fun _ _ => trivial

theorem regards_misrouted (rule : TokenRule) (token : Token) :
    (misrouted rule token : Routine α).Regards relevant post := trivial

theorem regards_expect (kind : TokenKind) (within : Construct) :
    (expect kind within).Regards relevant (Token.Relevant relevant) := by
  refine .bind regards_currentToken fun token _ => ?_
  split
  · exact regards_take
  · exact regards_unexpected _

theorem regards_eat (kind : TokenKind) : (eat kind).Mindful relevant := by
  refine .bind regards_currentToken fun token _ => ?_
  split <;> trivial

theorem regards_endStatement : endStatement.Mindful relevant := by
  refine .bind regards_currentToken fun token _ => ?_
  split
  · exact regards_skipLineEnds
  · exact regards_pure trivial
  · exact regards_pure trivial
  · exact regards_unexpected _

end Routine

/-! ## The rules of the grammar -/

namespace Grammar

open Routine

variable {relevant : String → Prop}

theorem regards_numeral (token : Token) (text : String) :
    (numeral token text).Mindful relevant := by
  have worked (found : Option Value) : (numeral.orOutOfRange token found).Mindful relevant := by
    cases found <;> trivial
  unfold numeral
  split
  · exact worked _
  · exact worked _
  · exact regards_misrouted _ _

theorem regards_bareArgumentList : bareArgumentList.Mindful relevant := by
  refine .bind regards_currentToken fun token _ => ?_
  split
  · exact regards_phrase trivial
  · exact regards_pure trivial

theorem regards_argumentList : argumentList.Mindful relevant := by
  refine .bind (regards_expect _ _) fun _ _ => .bind regards_skipLineEnds fun _ _ =>
    .bind (regards_eat _) fun eaten _ => ?_
  split
  · exact regards_pure trivial
  · exact regards_phrase trivial

theorem regards_boolean : boolean.Regards relevant (Node.Relevant relevant) := by
  refine .bind regards_take fun token _ => ?_
  split
  · exact regards_pure trivial
  · exact regards_pure trivial
  · exact regards_misrouted _ _

theorem regards_nil : nil.Regards relevant (Node.Relevant relevant) := by
  refine .bind regards_take fun token _ => ?_
  split
  · exact regards_pure trivial
  · exact regards_misrouted _ _

theorem regards_number : number.Regards relevant (Node.Relevant relevant) :=
  .bind regards_currentToken fun _ _ => .bind (regards_numeral _ _) fun _ _ =>
    .bind regards_step fun _ _ => regards_pure trivial

theorem regards_symbolLiteral : symbolLiteral.Regards relevant (Node.Relevant relevant) := by
  refine .bind regards_take fun token _ => ?_
  split
  · exact .bind (regards_symbol _) fun _ _ => regards_pure trivial
  · exact regards_misrouted _ _

theorem regards_stringLiteral : stringLiteral.Regards relevant (Node.Relevant relevant) := by
  refine .bind regards_take fun token _ => ?_
  split
  · exact regards_pure trivial
  · exact regards_misrouted _ _

theorem regards_name : name.Regards relevant (Node.Relevant relevant) := by
  refine .bind regards_currentToken fun token isRelevant => ?_
  split
  · rename_i named
    have known : relevant token.literal := isRelevant named
    refine .bind regards_nextToken fun behind _ => .bind regards_step fun _ _ =>
      .bind (regards_knows known) fun isLocal _ => ?_
    split
    · exact regards_pure known
    · exact .bind (regards_symbol _) fun _ _ => .bind regards_bareArgumentList fun _ _ =>
        regards_pure trivial
  · exact regards_misrouted _ _

theorem regards_group : group.Regards relevant (Node.Relevant relevant) := by
  refine .bind (regards_expect _ _) fun opening _ => .bind regards_skipLineEnds fun _ _ =>
    .bind (regards_eat _) fun eaten _ => ?_
  split
  · exact regards_pure trivial
  · exact .bind (regards_expression _) fun node known => .bind regards_skipLineEnds fun _ _ =>
      .bind (regards_expect _ _) fun _ _ => regards_pure known

theorem regards_definition : definition.Regards relevant (Node.Relevant relevant) :=
  .bind (regards_expect _ _) fun _ _ => .bind (regards_expect _ _) fun _ _ =>
    .bind (regards_phrase trivial) fun _ _ => regards_pure trivial

theorem regards_leading (form : LeadingForm) :
    (leading form).Regards relevant (Node.Relevant relevant) := by
  cases form with
  | boolean => exact regards_boolean
  | nil => exact regards_nil
  | number => exact regards_number
  | symbol => exact regards_symbolLiteral
  | string => exact regards_stringLiteral
  | name => exact regards_name
  | group => exact regards_group
  | definition => exact regards_definition

/-- The only name that is declared behind a phrase is the one that it is. -/
theorem regards_assignment {left : Node} (known : left.Relevant relevant) :
    (assignment left).Regards relevant (Node.Relevant relevant) := by
  unfold assignment
  split
  · exact .bind (regards_expect _ _) fun _ _ => .bind (regards_declareLocal known) fun _ _ =>
      .bind (regards_expression _) fun _ _ => regards_pure trivial
  · exact regards_unexpected _

theorem regards_call (left : Node) :
    (call left).Regards relevant (Node.Relevant relevant) := by
  refine .bind regards_previousToken fun before _ => ?_
  split
  · exact regards_unexpected _
  · split
    · exact .bind (regards_symbol _) fun _ _ => .bind regards_argumentList fun _ _ =>
        regards_pure trivial
    · exact .bind regards_argumentList fun _ _ => regards_pure trivial
    · exact regards_unexpected _

theorem regards_operator (left : Node) :
    (operator left).Regards relevant (Node.Relevant relevant) := by
  refine .bind regards_take fun token _ => ?_
  split
  · exact .bind (regards_symbol _) fun _ _ => .bind (regards_expression _) fun _ _ =>
      regards_pure trivial
  · exact regards_misrouted _ _

theorem regards_signedNumber (left : Node) :
    (signedNumber left).Regards relevant (Node.Relevant relevant) := by
  refine .bind regards_take fun token _ => ?_
  split
  · exact .bind (regards_numeral _ _) fun _ _ => .bind (regards_symbol _) fun _ _ =>
      .bind (regards_phrase trivial) fun _ _ => regards_pure trivial
  · exact regards_misrouted _ _

theorem regards_send (left : Node) :
    (send left).Regards relevant (Node.Relevant relevant) :=
  .bind (regards_expect _ _) fun _ _ => .bind (regards_expect _ _) fun _ _ =>
    .bind (regards_symbol _) fun _ _ => .bind regards_bareArgumentList fun _ _ =>
      regards_pure trivial

theorem regards_ternary (left : Node) :
    (ternary left).Regards relevant (Node.Relevant relevant) :=
  .bind (regards_expect _ _) fun _ _ => .bind (regards_expression _) fun _ _ =>
    .bind regards_skipLineEnds fun _ _ => .bind (regards_expect _ _) fun _ _ =>
      .bind (regards_expression _) fun _ _ => regards_pure trivial

theorem regards_following {left : Node} (form : FollowingForm) (known : left.Relevant relevant) :
    (following form left).Regards relevant (Node.Relevant relevant) := by
  cases form with
  | assignment => exact regards_assignment known
  | call => exact regards_call left
  | operator => exact regards_operator left
  | signedNumber => exact regards_signedNumber left
  | send => exact regards_send left
  | ternary => exact regards_ternary left

theorem regards_expressionFrom (min : Precedence) :
    (expressionFrom min).Regards relevant (Node.Relevant relevant) := by
  refine .bind regards_skipLineEnds fun _ _ => .bind regards_currentToken fun token _ => ?_
  split
  · exact .bind (regards_phrase trivial) fun left known => regards_phrase known
  · exact regards_unexpected _

theorem regards_continuation {left : Node} (min : Precedence) (known : left.Relevant relevant) :
    (continuation left min).Regards relevant (Node.Relevant relevant) := by
  refine .bind regards_currentToken fun token _ => ?_
  split
  · split
    · exact .bind (regards_phrase known) fun longer still => regards_phrase still
    · exact regards_pure known
  · exact regards_pure known

theorem regards_statements (terminator : TokenKind) :
    (statements terminator).Mindful relevant := by
  refine .bind regards_skipLineEnds fun _ _ => .bind regards_currentToken fun token _ => ?_
  split
  · exact regards_pure trivial
  · exact .bind (regards_expression _) fun _ _ => .bind regards_endStatement fun _ _ =>
      .bind (regards_phrase trivial) fun _ _ => regards_pure trivial

theorem regards_bareArguments : bareArguments.Mindful relevant := by
  refine .bind (regards_expression _) fun _ _ => .bind (regards_eat _) fun eaten _ => ?_
  split
  · exact .bind (regards_phrase trivial) fun _ _ => regards_pure trivial
  · exact regards_pure trivial

theorem regards_arguments : arguments.Mindful relevant := by
  refine .bind (regards_expression _) fun _ _ => .bind regards_skipLineEnds fun _ _ =>
    .bind (regards_eat _) fun eaten _ => ?_
  split
  · exact .bind (regards_phrase trivial) fun _ _ => regards_pure trivial
  · exact .bind (regards_expect _ _) fun _ _ => regards_pure trivial

theorem regards_parameterList : parameterList.Mindful relevant := by
  refine .bind regards_currentToken fun token _ => ?_
  split
  · refine .bind (regards_expect _ _) fun _ _ => .bind regards_skipLineEnds fun _ _ =>
      .bind (regards_eat _) fun eaten _ => ?_
    split
    · exact regards_pure trivial
    · exact regards_phrase trivial
  · exact regards_pure trivial
  · exact regards_pure trivial
  · exact regards_pure trivial
  · exact regards_phrase trivial

theorem regards_method : method.Mindful relevant :=
  .bind regards_parameterList fun _ _ => .bind regards_endStatement fun _ _ =>
    .bind (regards_phrase trivial) fun _ _ => .bind (regards_expect _ _) fun _ _ =>
      regards_pure trivial

theorem regards_parameter : parameter.Mindful relevant := by
  refine .bind regards_currentToken fun token isRelevant => ?_
  split
  · rename_i named
    refine .bind (regards_declareLocal (isRelevant named)) fun isNew _ => ?_
    split
    · exact .bind regards_step fun _ _ => regards_pure trivial
    · trivial
  · split
    · exact .bind (regards_phrase trivial) fun _ _ => trivial
    · exact regards_unexpected _

theorem regards_parameters : parameters.Mindful relevant := by
  refine .bind (regards_phrase trivial) fun _ _ => .bind regards_skipLineEnds fun _ _ =>
    .bind (regards_eat _) fun eaten _ => ?_
  split
  · exact .bind regards_skipLineEnds fun _ _ => .bind (regards_phrase trivial) fun _ _ =>
      regards_pure trivial
  · exact .bind (regards_expect _ _) fun _ _ => regards_pure trivial

theorem regards_bareParameters : bareParameters.Mindful relevant := by
  refine .bind (regards_phrase trivial) fun _ _ => .bind (regards_eat _) fun eaten _ => ?_
  split
  · exact .bind (regards_phrase trivial) fun _ _ => regards_pure trivial
  · exact regards_pure trivial

end Grammar

/-- Every rule asks only for names that it has read. -/
theorem Goal.routine_regards {relevant : String → Prop} {goal : Goal}
    (asked : goal.Regards relevant) :
    goal.routine.Regards relevant (goal.Relevant relevant) := by
  cases goal with
  | expression min => exact Grammar.regards_expressionFrom min
  | leading form => exact Grammar.regards_leading form
  | following form left => exact Grammar.regards_following form asked
  | continuation left min => exact Grammar.regards_continuation min asked
  | statements terminator => exact Grammar.regards_statements terminator
  | bareArguments => exact Grammar.regards_bareArguments
  | arguments => exact Grammar.regards_arguments
  | method => exact Grammar.regards_method
  | parameter => exact Grammar.regards_parameter
  | parameters => exact Grammar.regards_parameters
  | bareParameters => exact Grammar.regards_bareParameters

/-! ## Rules that move on at once -/

/-- Whether a routine moves to the next token before it looks back, asks for a phrase or
comes back. -/
def Routine.Enters {α : Type} : Routine α → Prop
  | .advance _ | .fail _ => True
  | .current go | .next go => ∀ token, (go token).Enters
  | _ => False

namespace Grammar

open Routine

variable {α : Type}

theorem enters_take (k : Token → Routine α) : (take >>= k).Enters := fun _ => trivial

theorem enters_expect (kind : TokenKind) (within : Construct) (k : Token → Routine α) :
    (expect kind within >>= k).Enters := by
  intro token
  show (Routine.bind (if token.kind = kind then take else unexpected _) k).Enters
  split <;> exact fun _ => trivial

theorem enters_number : number.Enters := by
  intro token
  have worked (found : Option Value) (k : Value → Routine Node) (next : ∀ value, (k value).Enters) :
      ((numeral.orOutOfRange token found).bind k).Enters := by
    cases found with
    | none => trivial
    | some value => exact next value
  show ((numeral token token.literal).bind _).Enters
  unfold numeral
  split
  · exact worked _ _ fun _ => trivial
  · exact worked _ _ fun _ => trivial
  · trivial

theorem enters_name : name.Enters := by
  intro token
  show (if token.kind = .identifier then _ else _ : Routine Node).Enters
  split
  · exact fun _ => trivial
  · trivial

theorem enters_leading (form : LeadingForm) : (leading form).Enters := by
  cases form with
  | boolean => exact enters_take _
  | nil => exact enters_take _
  | number => exact enters_number
  | symbol => exact enters_take _
  | string => exact enters_take _
  | name => exact enters_name
  | group => exact enters_expect _ _ _
  | definition => exact enters_expect _ _ _

end Grammar

end RubyReader
