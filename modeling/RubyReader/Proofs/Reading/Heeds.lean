/-
# `Heeds` — what a rule keeps to where it stands

Some phrases are asked for only where a token calls for them (`Starts`), and the lists
of a definition only by the definition (`AskedBy`).  A rule that is asked for like this
keeps to four things, whatever the phrases inside it are read as (`routine_heeds`):

    it moves past no token that ends the input
    it steps onto the token behind its own at once when it has looked there
    it asks for phrases only where they start
    it fails in one of three ways (`Fails`): at the token where it stands, at a number
    behind its sign, or, as a parameter, because what was read is no name

The last is why no token is ever handed to a rule that does not read it.
-/
import RubyReader.Proofs.Reading.Cursor
import RubyReader.Parser.Unfold

namespace RubyReader

/-! ## Where goals are asked for, and how they fail -/

namespace Goal

/-- A form is asked for only at a token that calls for it, and a following one only if
that token continues an expression at all. -/
def Starts : Goal → Cursor → Prop
  | .leading form, c => c.current.kind.leading? = some form
  | .following form _, c =>
    c.current.kind.following? = some form ∧ Precedence.lowest < c.current.precedence
  | _, _ => True

/-- The parts of a definition are asked for only by it and by each other. -/
def AskedBy : (inner outer : Goal) → Prop
  | .method, outer => outer = .leading .definition
  | .parameters, outer => outer = .method ∨ outer = .parameters
  | .bareParameters, outer => outer = .method ∨ outer = .bareParameters
  | .parameter, outer => outer = .parameters ∨ outer = .bareParameters
  | _, _ => True

theorem starts_statements (terminator : TokenKind) (c : Cursor) :
    (statements terminator).Starts c := trivial

/-- How the rule of a goal may fail by itself, and where it stands then. -/
inductive Fails : Goal → Cursor → ParseError → Prop
  /-- it blames the token at which it stands -/
  | current (goal : Goal) (c : Cursor) (cause : Cause) :
      Fails goal c (.malformed (.blame cause c.current))
  /-- it is behind a signed number that cannot be held -/
  | outOfRange {left : Node} {c : Cursor} {number : Token} :
      c.previous? = some number → number.signed = true → number.kind.isNumber = true →
      Fails (.following .signedNumber left) c (.malformed (.blame (.outOfRange number) number))
  /-- it is a parameter, and what was read instead is no name -/
  | noName (c : Cursor) (node : Node) :
      Fails .parameter c (.internal (.unexpectedNode .identifier node.type node.position))

end Goal

namespace Routine

theorem bind_bind {α β γ : Type} (r : Routine α) (f : α → Routine β) (g : β → Routine γ) :
    r >>= f >>= g = r >>= fun a => f a >>= g := by
  show (r.bind f).bind g = r.bind fun a => (f a).bind g
  induction r with
  | done => rfl
  | fail => rfl
  | current go ih => exact congrArg _ (funext ih)
  | next go ih => exact congrArg _ (funext ih)
  | previous go ih => exact congrArg _ (funext ih)
  | advance go ih => exact congrArg _ ih
  | skipLines go ih => exact congrArg _ ih
  | isLocal name go ih => exact congrArg _ (funext ih)
  | declare name go ih => exact congrArg _ (funext ih)
  | intern name go ih => exact congrArg _ ih
  | read goal go ih => exact congrArg _ (funext ih)

/-- Whether a routine moves to the next token before all else. -/
def StepsOn {α : Type} : Routine α → Prop
  | .advance _ => True
  | _ => False

/-- A routine for a goal, run from a cursor, moves past no end of the input, steps onto
a token behind the current one that it has looked at, asks for goals only where they
start, and fails only as its goal may, whatever it finds out and whatever is read for it. -/
def Heeds {α : Type} (outer : Goal) : Routine α → Cursor → Prop
  | .done _, _ => True
  | .fail error, c => outer.Fails c error
  | .current go, c => Heeds outer (go c.current) c
  | .next go, c => (go c.next).StepsOn ∧ Heeds outer (go c.next) c
  | .previous go, c => Heeds outer (go c.previous?) c
  | .advance go, c => c.current.kind ≠ .eof ∧ Heeds outer go c.advance
  | .skipLines go, c => Heeds outer go c.skipLines
  | .isLocal _ go, c => ∀ known, Heeds outer (go known) c
  | .declare _ go, c => ∀ new, Heeds outer (go new) c
  | .intern _ go, c => Heeds outer go c
  | .read inner go, c =>
    (inner.Starts c ∧ inner.AskedBy outer) ∧ ∀ result c', Heeds outer (go result) c'

/-! ## The steps that rules are made of

Each in front of what comes after it. -/

section Steps

variable {α : Type} {outer : Goal} {c : Cursor}

theorem heeds_pure {a : α} : (pure a : Routine α).Heeds outer c := trivial

theorem heeds_unexpected (expected : Expectation) :
    (unexpected expected : Routine α).Heeds outer c := .current ..

theorem heeds_currentToken {k : Token → Routine α} :
    (currentToken >>= k).Heeds outer c ↔ (k c.current).Heeds outer c := Iff.rfl

theorem heeds_nextToken {k : Token → Routine α} :
    (nextToken >>= k).Heeds outer c ↔ (k c.next).StepsOn ∧ (k c.next).Heeds outer c := Iff.rfl

theorem heeds_previousToken {k : Option Token → Routine α} :
    (previousToken >>= k).Heeds outer c ↔ (k c.previous?).Heeds outer c := Iff.rfl

theorem heeds_step {k : Unit → Routine α} :
    (step >>= k).Heeds outer c ↔ c.current.kind ≠ .eof ∧ (k ()).Heeds outer c.advance := Iff.rfl

theorem heeds_skipLineEnds {k : Unit → Routine α} :
    (skipLineEnds >>= k).Heeds outer c ↔ (k ()).Heeds outer c.skipLines := Iff.rfl

theorem heeds_knows {name : String} {k : Bool → Routine α} :
    (knows name >>= k).Heeds outer c ↔ ∀ known, (k known).Heeds outer c := Iff.rfl

theorem heeds_declareLocal {name : String} {k : Bool → Routine α} :
    (declareLocal name >>= k).Heeds outer c ↔ ∀ new, (k new).Heeds outer c := Iff.rfl

theorem heeds_symbol {name : String} {k : Symbol → Routine α} :
    (symbol name >>= k).Heeds outer c ↔ (k ⟨name⟩).Heeds outer c := Iff.rfl

theorem heeds_take {k : Token → Routine α} :
    (take >>= k).Heeds outer c ↔ c.current.kind ≠ .eof ∧ (k c.current).Heeds outer c.advance :=
  Iff.rfl

theorem heeds_anywhere {inner : Goal} {k : inner.Result → Routine α}
    (starts : inner.Starts c) (asked : inner.AskedBy outer)
    (next : ∀ result c', (k result).Heeds outer c') : (phrase inner >>= k).Heeds outer c :=
  ⟨⟨starts, asked⟩, next⟩

theorem heeds_expression {min : Precedence} {k : Node → Routine α}
    (next : ∀ node c', (k node).Heeds outer c') : (expression min >>= k).Heeds outer c :=
  ⟨⟨trivial, trivial⟩, next⟩

theorem heeds_expect {kind : TokenKind} {within : Construct} {k : Token → Routine α}
    (noEnd : kind ≠ .eof)
    (next : c.current.kind = kind → (k c.current).Heeds outer c.advance) :
    (expect kind within >>= k).Heeds outer c := by
  show ((if c.current.kind = kind then take else unexpected _).bind k).Heeds outer c
  split
  · rename_i same
    exact ⟨same ▸ noEnd, next same⟩
  · exact heeds_unexpected _

theorem heeds_eat {kind : TokenKind} {k : Bool → Routine α} (noEnd : kind ≠ .eof)
    (eaten : (k true).Heeds outer c.advance) (other : (k false).Heeds outer c) :
    (eat kind >>= k).Heeds outer c := by
  show (Routine.bind (if c.current.kind = kind then _ else _) k).Heeds outer c
  split
  · rename_i same
    exact ⟨same ▸ noEnd, eaten⟩
  · exact other

theorem heeds_endStatement {k : Unit → Routine α} (next : ∀ c', (k ()).Heeds outer c') :
    (endStatement >>= k).Heeds outer c := by
  unfold endStatement
  rw [bind_bind, heeds_currentToken]
  split
  · exact next _
  · exact next _
  · exact next _
  · exact heeds_unexpected _

end Steps

end Routine

/-! ## Tokens and the forms they call for

A token that starts an expression, or goes on with one, does not end the input. -/

/-- The kinds of the tokens that a leading form starts with. -/
def LeadingForm.StartsWith (kind : TokenKind) : LeadingForm → Prop
  | .boolean => kind = .kwTrue ∨ kind = .kwFalse
  | .nil => kind = .kwNil
  | .number => kind.isNumber = true
  | .symbol => kind = .symbol
  | .string => kind = .string
  | .name => kind = .identifier
  | .group => kind = .lparen
  | .definition => kind = .kwDef

namespace TokenKind

variable {kind : TokenKind}

theorem startsWith_of_leading {form : LeadingForm} (h : kind.leading? = some form) :
    form.StartsWith kind := by
  cases kind <;> cases h <;> simp [LeadingForm.StartsWith, isNumber]

theorem ne_eof_of_leading {form : LeadingForm} (h : kind.leading? = some form) : kind ≠ .eof := by
  rintro rfl
  cases h

theorem ne_eof_of_following {form : FollowingForm} (h : kind.following? = some form) :
    kind ≠ .eof := by
  rintro rfl
  cases h

theorem operator?_isSome_of_following (h : kind.following? = some .operator) :
    kind.operator?.isSome = true := by
  cases kind <;> first | rfl | cases h

theorem isNumber_of_following (h : kind.following? = some .signedNumber) :
    kind.isNumber = true := by
  cases kind <;> first | rfl | cases h

end TokenKind

/-- A number continues an expression only if it is signed. -/
theorem Token.signed_of_precedence {token : Token} (number : token.kind.isNumber = true)
    (tighter : Precedence.lowest < token.precedence) : token.signed = true := by
  cases signed : token.signed with
  | true => rfl
  | false =>
      have lowest : token.precedence = .lowest := by
        unfold precedence
        split <;> simp_all [TokenKind.isNumber]
      rw [lowest] at tighter
      exact absurd tighter (Nat.lt_irrefl _)

/-! ## The rules of the grammar -/

namespace Grammar

open Routine

variable {α : Type} {outer : Goal} {c : Cursor}

/-- A number is worked out where the rule stands; one that cannot be held is left to
the rule that asks. -/
theorem heeds_numeral {token : Token} {text : String} {k : Value → Routine α}
    (number : token.kind.isNumber = true)
    (outOfRange : outer.Fails c (.malformed (.blame (.outOfRange token) token)))
    (next : ∀ value, (k value).Heeds outer c) : (numeral token text >>= k).Heeds outer c := by
  have worked (found : Option Value) :
      ((numeral.orOutOfRange token found).bind k).Heeds outer c := by
    cases found with
    | none => exact outOfRange
    | some value => exact next value
  show ((numeral token text).bind k).Heeds outer c
  unfold numeral
  split
  · exact worked _
  · exact worked _
  · rename_i noInteger noFloat
    cases kind : token.kind <;> simp_all [TokenKind.isNumber]

theorem heeds_bareArgumentList {k : List Node → Routine α}
    (next : ∀ args c', (k args).Heeds outer c') : (bareArgumentList >>= k).Heeds outer c := by
  show (Routine.bind (if c.current.beginsBareArgument then _ else _) k).Heeds outer c
  split
  · exact heeds_anywhere trivial trivial next
  · exact next [] c

theorem heeds_argumentList {k : List Node → Routine α}
    (next : ∀ args c', (k args).Heeds outer c') : (argumentList >>= k).Heeds outer c := by
  unfold argumentList
  simp only [bind_bind]
  refine heeds_expect (by decide) fun _ => ?_
  refine heeds_eat (by decide) (next [] _) ?_
  exact heeds_anywhere trivial trivial next

/-! ### Leading forms -/

section Leading

theorem heeds_boolean (starts : (Goal.leading .boolean).Starts c) : boolean.Heeds outer c := by
  unfold boolean
  rw [heeds_take]
  refine ⟨TokenKind.ne_eof_of_leading starts, ?_⟩
  split
  · exact heeds_pure
  · exact heeds_pure
  · rename_i noTrue noFalse
    rcases TokenKind.startsWith_of_leading starts with kind | kind
    · exact absurd kind noTrue
    · exact absurd kind noFalse

theorem heeds_nil (starts : (Goal.leading .nil).Starts c) : nil.Heeds outer c := by
  have kind : c.current.kind = .kwNil := TokenKind.startsWith_of_leading starts
  unfold nil
  rw [heeds_take, if_pos kind]
  exact ⟨TokenKind.ne_eof_of_leading starts, heeds_pure⟩

theorem heeds_number (starts : (Goal.leading .number).Starts c) : number.Heeds outer c := by
  unfold number
  rw [heeds_currentToken]
  refine heeds_numeral (TokenKind.startsWith_of_leading starts) (.current ..) fun value => ?_
  exact ⟨TokenKind.ne_eof_of_leading starts, heeds_pure⟩

theorem heeds_symbolLiteral (starts : (Goal.leading .symbol).Starts c) :
    symbolLiteral.Heeds outer c := by
  have kind : c.current.kind = .symbol := TokenKind.startsWith_of_leading starts
  unfold symbolLiteral
  rw [heeds_take, if_pos kind]
  exact ⟨TokenKind.ne_eof_of_leading starts, trivial⟩

theorem heeds_stringLiteral (starts : (Goal.leading .string).Starts c) :
    stringLiteral.Heeds outer c := by
  have kind : c.current.kind = .string := TokenKind.startsWith_of_leading starts
  unfold stringLiteral
  rw [heeds_take, if_pos kind]
  exact ⟨TokenKind.ne_eof_of_leading starts, heeds_pure⟩

theorem heeds_name (starts : (Goal.leading .name).Starts c) : name.Heeds outer c := by
  have kind : c.current.kind = .identifier := TokenKind.startsWith_of_leading starts
  unfold name
  rw [heeds_currentToken, if_pos kind, heeds_nextToken]
  -- the token behind is looked at, and the next step leads onto it
  refine ⟨trivial, ?_⟩
  rw [heeds_step]
  refine ⟨TokenKind.ne_eof_of_leading starts, ?_⟩
  rw [heeds_knows]
  intro known
  split
  · exact heeds_pure
  · exact heeds_bareArgumentList fun args c' => heeds_pure

theorem heeds_group : group.Heeds outer c := by
  unfold group
  refine heeds_expect (by decide) fun _ => ?_
  rw [heeds_skipLineEnds]
  refine heeds_eat (by decide) heeds_pure ?_
  refine heeds_expression fun node c' => ?_
  rw [heeds_skipLineEnds]
  exact heeds_expect (by decide) fun _ => heeds_pure

theorem heeds_definition : definition.Heeds (.leading .definition) c := by
  unfold definition
  refine heeds_expect (by decide) fun _ => ?_
  refine heeds_expect (by decide) fun _ => ?_
  exact heeds_anywhere trivial rfl fun _ _ => heeds_pure

theorem heeds_leading {form : LeadingForm} (starts : (Goal.leading form).Starts c) :
    (leading form).Heeds (.leading form) c := by
  cases form with
  | boolean => exact heeds_boolean starts
  | nil => exact heeds_nil starts
  | number => exact heeds_number starts
  | symbol => exact heeds_symbolLiteral starts
  | string => exact heeds_stringLiteral starts
  | name => exact heeds_name starts
  | group => exact heeds_group
  | definition => exact heeds_definition

end Leading

/-! ### Following forms -/

section Following

variable {left : Node}

theorem heeds_assignment : (assignment left).Heeds outer c := by
  unfold assignment
  split
  · refine heeds_expect (by decide) fun _ => ?_
    rw [heeds_declareLocal]
    intro new
    exact heeds_expression fun _ _ => heeds_pure
  · exact heeds_unexpected _

theorem heeds_call : (call left).Heeds outer c := by
  unfold call
  rw [heeds_previousToken]
  split
  · exact heeds_unexpected _
  · split
    · rw [heeds_symbol]
      exact heeds_argumentList fun _ _ => heeds_pure
    · exact heeds_argumentList fun _ _ => heeds_pure
    · exact heeds_unexpected _

theorem heeds_operator (starts : (Goal.following .operator left).Starts c) :
    (operator left).Heeds outer c := by
  unfold operator
  rw [heeds_take]
  refine ⟨TokenKind.ne_eof_of_following starts.1, ?_⟩
  split
  · rw [heeds_symbol]
    exact heeds_expression fun _ _ => heeds_pure
  · rename_i none
    have some := TokenKind.operator?_isSome_of_following starts.1
    rw [none] at some
    cases some

theorem heeds_signedNumber (starts : (Goal.following .signedNumber left).Starts c) :
    (signedNumber left).Heeds (.following .signedNumber left) c := by
  obtain ⟨follows, tighter⟩ := starts
  have number := TokenKind.isNumber_of_following follows
  have signed := Token.signed_of_precedence number tighter
  have noEnd := TokenKind.ne_eof_of_following follows
  unfold signedNumber
  rw [heeds_take]
  refine ⟨noEnd, ?_⟩
  rw [if_pos signed]
  refine heeds_numeral number ?_ fun value => ?_
  · exact .outOfRange (Cursor.previous_advance noEnd) signed number
  · rw [heeds_symbol]
    exact heeds_anywhere trivial trivial fun _ _ => heeds_pure

theorem heeds_send : (send left).Heeds outer c := by
  unfold send
  refine heeds_expect (by decide) fun _ => ?_
  refine heeds_expect (by decide) fun _ => ?_
  rw [heeds_symbol]
  exact heeds_bareArgumentList fun _ _ => heeds_pure

theorem heeds_ternary : (ternary left).Heeds outer c := by
  unfold ternary
  refine heeds_expect (by decide) fun _ => ?_
  refine heeds_expression fun ifTrue c' => ?_
  rw [heeds_skipLineEnds]
  refine heeds_expect (by decide) fun _ => ?_
  exact heeds_expression fun _ _ => heeds_pure

theorem heeds_following {form : FollowingForm} (starts : (Goal.following form left).Starts c) :
    (following form left).Heeds (.following form left) c := by
  cases form with
  | assignment => exact heeds_assignment
  | call => exact heeds_call
  | operator => exact heeds_operator starts
  | signedNumber => exact heeds_signedNumber starts
  | send => exact heeds_send
  | ternary => exact heeds_ternary

end Following

/-! ### Expressions, statements and lists -/

theorem heeds_expressionFrom {min : Precedence} : (expressionFrom min).Heeds outer c := by
  unfold expressionFrom
  rw [heeds_skipLineEnds, heeds_currentToken]
  split
  · rename_i form leads
    exact heeds_anywhere leads trivial fun left c' => ⟨⟨trivial, trivial⟩, fun _ _ => trivial⟩
  · exact heeds_unexpected _

theorem heeds_continuation {left : Node} {min : Precedence} :
    (continuation left min).Heeds outer c := by
  unfold continuation
  rw [heeds_currentToken]
  split
  · rename_i tighter
    split
    · rename_i form follows
      have starts : (Goal.following form left).Starts c :=
        ⟨follows, Nat.lt_of_le_of_lt (Nat.zero_le _) tighter⟩
      exact heeds_anywhere starts trivial fun longer c' => ⟨⟨trivial, trivial⟩, fun _ _ => trivial⟩
    · exact heeds_pure
  · exact heeds_pure

theorem heeds_statements {terminator : TokenKind} : (statements terminator).Heeds outer c := by
  unfold statements
  rw [heeds_skipLineEnds, heeds_currentToken]
  split
  · exact heeds_pure
  · refine heeds_expression fun statement c' => ?_
    refine heeds_endStatement fun c'' => ?_
    exact heeds_anywhere trivial trivial fun _ _ => heeds_pure

theorem heeds_bareArguments : bareArguments.Heeds outer c := by
  unfold bareArguments
  refine heeds_expression fun argument c' => ?_
  refine heeds_eat (by decide) ?_ heeds_pure
  exact heeds_anywhere trivial trivial fun _ _ => heeds_pure

theorem heeds_arguments : arguments.Heeds outer c := by
  unfold arguments
  refine heeds_expression fun argument c' => ?_
  rw [heeds_skipLineEnds]
  refine heeds_eat (by decide) ?_ ?_
  · exact heeds_anywhere trivial trivial fun _ _ => heeds_pure
  · exact heeds_expect (by decide) fun _ => heeds_pure

/-! ### Methods -/

theorem heeds_parameterList {k : List Node → Routine α}
    (next : ∀ params c', (k params).Heeds .method c') :
    (parameterList >>= k).Heeds .method c := by
  unfold parameterList
  rw [bind_bind, heeds_currentToken]
  split
  · unfold parenthesizedParameters
    simp only [bind_bind]
    refine heeds_expect (by decide) fun _ => ?_
    refine heeds_eat (by decide) (next [] _) ?_
    exact heeds_anywhere trivial (.inl rfl) next
  · exact next [] _
  · exact next [] _
  · exact next [] _
  · exact heeds_anywhere trivial (.inl rfl) next

theorem heeds_method : method.Heeds .method c := by
  unfold method
  refine heeds_parameterList fun params c₁ => ?_
  refine heeds_endStatement fun c₂ => ?_
  refine heeds_anywhere trivial trivial fun body c₃ => ?_
  exact heeds_expect (by decide) fun _ => heeds_pure

theorem heeds_parameter : parameter.Heeds .parameter c := by
  unfold parameter
  rw [heeds_currentToken]
  split
  · rename_i named
    rw [heeds_declareLocal]
    intro new
    split
    · exact ⟨by simp [named], heeds_pure⟩
    · exact .current ..
  · split
    · rename_i form leads
      exact heeds_anywhere leads trivial fun node c' => .noName c' node
    · exact heeds_unexpected _

theorem heeds_parameters : parameters.Heeds .parameters c := by
  unfold parameters
  refine heeds_anywhere trivial (.inl rfl) fun first c' => ?_
  rw [heeds_skipLineEnds]
  refine heeds_eat (by decide) ?_ ?_
  · exact heeds_anywhere trivial (.inr rfl) fun _ _ => heeds_pure
  · exact heeds_expect (by decide) fun _ => heeds_pure

theorem heeds_bareParameters : bareParameters.Heeds .bareParameters c := by
  unfold bareParameters
  refine heeds_anywhere trivial (.inr rfl) fun first c' => ?_
  refine heeds_eat (by decide) ?_ heeds_pure
  exact heeds_anywhere trivial (.inr rfl) fun _ _ => heeds_pure

end Grammar

/-- Every rule keeps to where it stands, if it is asked for where its goal starts. -/
theorem Goal.routine_heeds {goal : Goal} {c : Cursor} (starts : goal.Starts c) :
    goal.routine.Heeds goal c := by
  cases goal with
  | expression min => exact Grammar.heeds_expressionFrom
  | leading form => exact Grammar.heeds_leading starts
  | following form left => exact Grammar.heeds_following starts
  | continuation left min => exact Grammar.heeds_continuation
  | statements terminator => exact Grammar.heeds_statements
  | bareArguments => exact Grammar.heeds_bareArguments
  | arguments => exact Grammar.heeds_arguments
  | method => exact Grammar.heeds_method
  | parameter => exact Grammar.heeds_parameter
  | parameters => exact Grammar.heeds_parameters
  | bareParameters => exact Grammar.heeds_bareParameters

end RubyReader
