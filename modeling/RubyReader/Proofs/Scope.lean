/-
# `Scope` — names are resolved as the scope says

The scope of a program grows from left to right.  Walked in source order, a
tree is `Resolved` in a scope when each name in it is what the scope at its
place makes of it:

    x = value   the target is local iff it is in scope; it is from the value on
    x           a variable in scope
    f(args)     a call of a name in scope is written with a parenthesis at once
    def         the body starts from the parameters, and leaves nothing behind

The names that a tree adds to its scope are the `assignedNames`: those it
assigns outside the methods in it.  Every program that is read is resolved in
the scope it was read in, and leaves that scope with its assigned names added
(`program_resolved`).

A name in front of `=` is read as a target before it is known whether the `=`
binds it, and `1 + x = 2` reads one that it does not bind.  So the invariant
`Settles` asks for a resolved tree only where no `=` follows; an expression
with the lowest precedence never stops in front of one.
-/
import Mathlib
import RubyReader.Proofs.Reading.Program

namespace RubyReader

/-! ## Resolved trees -/

namespace Node

mutual

/-- The names that a tree assigns outside its methods, in source order. -/
def assignedNames : Node → List String
  | assignment target value _ => target.name :: assignedNames value
  | block nodes _ => allAssignedNames nodes
  | call receiver _ args _ => assignedNames receiver ++ allAssignedNames args
  | conditional condition ifTrue ifFalse _ =>
    assignedNames condition ++ (assignedNames ifTrue ++ assignedNames ifFalse)
  | definition .. | falseLiteral _ | identifier .. | implicitSelf _ | literal .. | nilLiteral _
  | string .. | symbol .. | trueLiteral _ => []

def allAssignedNames : List Node → List String
  | [] => []
  | node :: rest => assignedNames node ++ allAssignedNames rest

end

def parameterName? : Node → Option String
  | identifier name _ => some name.name
  | _ => none

/-- Whether the name at a place is directly followed by an opening parenthesis. -/
def CalledAtOnce (tokens : List Token) (name : String) (position : Position) : Prop :=
  ∃ before token paren after, tokens = before ++ token :: paren :: after ∧
    token.kind = .identifier ∧ token.literal = name ∧ token.position = position ∧
    paren.kind = .lparen

mutual

/-- Whether the names in a tree that was read from `tokens` are what the scope
at their place makes of them. -/
def Resolved (tokens : List Token) : Names → Node → Prop
  | scope, assignment target value _ =>
    (target.isLocal = true ↔ target.name ∈ scope) ∧
      Resolved tokens (scope.insert target.name) value
  | scope, block nodes _ => AllResolved tokens scope nodes
  | scope, call receiver message args position =>
    Resolved tokens scope receiver ∧
      AllResolved tokens (scope.insertAll receiver.assignedNames) args ∧
      (receiver.type = .implicitSelf → message.name ∈ scope →
        CalledAtOnce tokens message.name position)
  | _, definition name params body _ =>
    name.isLocal = false ∧ (∀ param ∈ params, ∃ name, param.parameterName? = some name) ∧
      AllResolved tokens (.ofList (params.filterMap parameterName?)) body
  | scope, identifier name _ => name.isLocal = true ∧ name.name ∈ scope
  | scope, conditional condition ifTrue ifFalse _ =>
    Resolved tokens scope condition ∧
      Resolved tokens (scope.insertAll condition.assignedNames) ifTrue ∧
      Resolved tokens ((scope.insertAll condition.assignedNames).insertAll ifTrue.assignedNames)
        ifFalse
  | _, falseLiteral _ | _, implicitSelf _ | _, literal .. | _, nilLiteral _ | _, string ..
  | _, symbol .. | _, trueLiteral _ => True

def AllResolved (tokens : List Token) : Names → List Node → Prop
  | _, [] => True
  | scope, node :: rest =>
    Resolved tokens scope node ∧ AllResolved tokens (scope.insertAll node.assignedNames) rest

end

end Node

/-! ## What reading says about the scope

There is one lemma for each way that a node comes about.  The three notions differ in what
may still happen: a node may become the target of an assignment, or a call take arguments,
which trees in a list and parameters cannot. -/

/-- A node was read in a scope: the parser behind it knows its assigned names
as well, a name is marked as the scope says, and unless an `=` follows the
node is resolved. -/
structure Settles (tokens : List Token) (scope : Names) (node : Node) (q : Parser) : Prop where
  scope_eq : q.scope = scope.insertAll node.assignedNames
  marked : ∀ name position, node = .identifier name position →
    (name.isLocal = true ↔ name.name ∈ scope)
  explicit : node.type ≠ .implicitSelf
  resolved : q.token.kind ≠ .assign → node.Resolved tokens scope

/-- Trees were read one after the other, beginning in a scope. -/
def AllSettle (tokens : List Token) (scope : Names) (nodes : List Node) (q : Parser) : Prop :=
  q.scope = scope.insertAll (Node.allAssignedNames nodes) ∧ Node.AllResolved tokens scope nodes

/-- Parameters were read, which are names, and are in scope from then on. -/
def Declares (scope : Names) (params : List Node) (q : Parser) : Prop :=
  q.scope = scope.insertAll (params.filterMap Node.parameterName?) ∧
    ∀ param ∈ params, ∃ name, param.parameterName? = some name

/-- What the reading of a goal says about the scope. -/
def Goal.Scopes (tokens : List Token) : (goal : Goal) → Parser → goal.Result → Parser → Prop
  | .expression min, p, node, q =>
    Settles tokens p.scope node q ∧ (q.token.kind = .assign → ¬ min < .assignment)
  | .leading _, p, node, q => Settles tokens p.scope node q
  | .following _ left, p, node, q =>
    ∀ scope, Settles tokens scope left p → NameEnds left p → Settles tokens scope node q
  | .continuation left min, p, node, q =>
    ∀ scope, Settles tokens scope left p → NameEnds left p →
      Settles tokens scope node q ∧ (q.token.kind = .assign → ¬ min < .assignment)
  | .statements _, p, nodes, q => AllSettle tokens p.scope nodes q
  | .bareArguments, p, nodes, q => AllSettle tokens p.scope nodes q
  | .arguments, p, nodes, q => AllSettle tokens p.scope nodes q
  | .method, p, (params, body), q =>
    q.scope = p.scope ∧ (∀ param ∈ params, ∃ name, param.parameterName? = some name) ∧
      Node.AllResolved tokens (.ofList (params.filterMap Node.parameterName?)) body
  | .parameter, p, param, q => Declares p.scope [param] q
  | .parameters, p, params, q => Declares p.scope params q
  | .bareParameters, p, params, q => Declares p.scope params q

section Pieces

variable {tokens : List Token} {scope : Names} {p q : Parser} {node left : Node}

theorem Settles.inner (type : node.type ≠ .identifier) (explicit : node.type ≠ .implicitSelf)
    (scope_eq : q.scope = scope.insertAll node.assignedNames)
    (resolved : q.token.kind ≠ .assign → node.Resolved tokens scope) :
    Settles tokens scope node q where
  scope_eq := scope_eq
  marked := by
    rintro name position rfl
    exact absurd rfl type
  explicit := explicit
  resolved := resolved

theorem Settles.leaf (same : q.scope = scope) (names : node.assignedNames = [])
    (type : node.type ≠ .identifier) (explicit : node.type ≠ .implicitSelf)
    (resolved : node.Resolved tokens scope) : Settles tokens scope node q :=
  .inner type explicit (by rw [names, same, Names.insertAll_nil]) fun _ => resolved

theorem Settles.closed (h : Settles tokens scope node q) : Settles tokens scope node q.closed :=
  ⟨h.scope_eq, h.marked, h.explicit, h.resolved⟩

/-- The lowest precedence leaves no `=` behind. -/
theorem Settles.resolved_of_lowest (h : Settles tokens scope node q)
    (stops : q.token.kind = .assign → ¬ Precedence.lowest < .assignment) :
    node.Resolved tokens scope :=
  h.resolved fun assign => stops assign (by decide)

theorem Settles.call {message : Symbol} {args : List Node} {position : Position}
    (receiver : Settles tokens scope left p) (noTarget : p.token.kind ≠ .assign)
    (scope_eq : q.scope = p.scope.insertAll (Node.allAssignedNames args))
    (argsResolved : q.token.kind ≠ .assign → Node.AllResolved tokens p.scope args) :
    Settles tokens scope (.call left message args position) q where
  scope_eq := by
    rw [Node.assignedNames, Names.insertAll_append, ← receiver.scope_eq, scope_eq]
  marked := fun _ _ h => by cases h
  explicit := fun h => by cases h
  resolved noTarget' := by
    rw [Node.Resolved, ← receiver.scope_eq]
    exact ⟨receiver.resolved noTarget, argsResolved noTarget',
      fun implicit => absurd implicit receiver.explicit⟩

theorem Settles.selfCall {message : Symbol} {args : List Node} {position place : Position}
    (h : AllSettle tokens scope args q)
    (called : message.name ∈ scope → Node.CalledAtOnce tokens message.name position) :
    Settles tokens scope (.call (.implicitSelf place) message args position) q where
  scope_eq := by
    rw [Node.assignedNames, Node.assignedNames, List.nil_append]
    exact h.1
  marked := fun _ _ h => by cases h
  explicit := fun h => by cases h
  resolved _ := by
    rw [Node.Resolved, Node.assignedNames, Names.insertAll_nil]
    exact ⟨by rw [Node.Resolved]; trivial, h.2, fun _ => called⟩

theorem Settles.callAgain {receiver : Node} {message : Symbol} {args : List Node}
    {position : Position} (call : Settles tokens scope (.call receiver message [] position) p)
    (noTarget : p.token.kind ≠ .assign) (h : AllSettle tokens p.scope args q) :
    Settles tokens scope (.call receiver message args position) q := by
  have names : p.scope = scope.insertAll receiver.assignedNames := by
    simpa [Node.assignedNames, Node.allAssignedNames] using call.scope_eq
  have resolved := call.resolved noTarget
  rw [Node.Resolved] at resolved
  refine .inner (by simp [Node.type]) (by simp [Node.type]) ?_ fun _ => ?_
  · rw [Node.assignedNames, Names.insertAll_append, ← names, h.1]
  · rw [Node.Resolved, ← names]
    exact ⟨resolved.1, h.2, resolved.2.2⟩

theorem calledAtOnce_of_nameEnds {name : Identifier} {position : Position}
    (ends : NameEnds (.identifier name position) p) (after : p.afterParen = false)
    (paren : p.token.kind = .lparen) :
    Node.CalledAtOnce p.cursor.tokens name.name position := by
  rcases ends with ends | ⟨previous, kind, rfl⟩
  · rw [after] at ends
    cases ends
  · obtain ⟨rest, before⟩ : ∃ rest, p.cursor.before = name.token :: rest := by
      cases found : p.cursor.before with
      | nil => simp [Cursor.previous?, found] at previous
      | cons token rest =>
          simp only [Cursor.previous?, found, List.head?_cons, Option.some.injEq] at previous
          exact ⟨rest, by rw [previous]⟩
    refine ⟨rest.reverse, name.token, p.token, p.cursor.after, ?_, kind, rfl, rfl, paren⟩
    rw [Cursor.tokens, before, List.reverse_cons, List.append_assoc]
    rfl

end Pieces

theorem AllSettle.cons {tokens : List Token} {scope : Names} {p q : Parser} {node : Node}
    {nodes : List Node} (first : Settles tokens scope node p)
    (stops : p.token.kind = .assign → ¬ Precedence.lowest < .assignment)
    (rest : AllSettle tokens p.scope nodes q) : AllSettle tokens scope (node :: nodes) q := by
  obtain ⟨scope_eq, resolved⟩ := rest
  rw [first.scope_eq] at scope_eq resolved
  refine ⟨?_, ?_⟩
  · rw [Node.allAssignedNames, Names.insertAll_append, scope_eq]
  · rw [Node.AllResolved]
    exact ⟨first.resolved_of_lowest stops, resolved⟩

theorem AllSettle.nil {tokens : List Token} {p : Parser} : AllSettle tokens p.scope [] p :=
  ⟨rfl, by rw [Node.AllResolved]; trivial⟩

theorem Declares.cons {scope : Names} {p q : Parser} {param : Node} {params : List Node}
    (first : Declares scope [param] p) (rest : Declares p.scope params q) :
    Declares scope (param :: params) q := by
  obtain ⟨name, found⟩ := first.2 param List.mem_cons_self
  refine ⟨?_, ?_⟩
  · rw [rest.1, first.1, ← Names.insertAll_append, ← List.filterMap_append]
    rfl
  · intro other mem
    rcases List.mem_cons.mp mem with rfl | mem
    · exact ⟨name, found⟩
    · exact rest.2 other mem

open Node (allAssignedNames assignedNames AllResolved Resolved parameterName?) in
/-- Reading does with the scope what the tree says, by induction on the
derivation. -/
theorem Reads.scopes {limit : Option Nat} {tokens : List Token} {goal : Goal} {p q : Parser}
    {a : goal.Result} (h : Reads limit goal p a q) (same : p.cursor.tokens = tokens) :
    goal.Scopes tokens p a q := by
  induction h with
  | trueLiteral _ | falseLiteral _ | nilLiteral _ | number _ | symbol _ | string _
  | emptyGroup _ _ =>
      exact .leaf rfl rfl (by simp [Node.type]) (by simp [Node.type]) (by simp [Resolved])
  | @name p named known =>
      refine ⟨rfl, ?_, by simp [Node.type], fun noTarget => ?_⟩
      · rintro name position e
        cases e
        exact Names.contains_iff
      · have inScope : p.token.literal ∈ p.scope := known.resolve_right noTarget
        rw [Resolved]
        exact ⟨Names.contains_iff.mpr inScope, inScope⟩
  | selfCall _ unknown _ _ => exact .selfCall .nil fun known => absurd known unknown
  | selfCallWith _ unknown _ _ _ list =>
      have args := list (by simpa using same)
      exact .selfCall args fun known => absurd known unknown
  | group _ _ _ _ inner =>
      obtain ⟨settles, stops⟩ := inner (by simpa using same)
      exact ⟨settles.scope_eq, settles.marked, settles.explicit, fun _ =>
        settles.resolved_of_lowest stops⟩
  | definition _ _ _ method =>
      obtain ⟨scope_eq, params, body⟩ := method (by simpa using same)
      refine .leaf scope_eq rfl (by simp [Node.type]) (by simp [Node.type]) ?_
      rw [Resolved]
      exact ⟨rfl, params, body⟩
  | @assignment p q target position value _ _ inner =>
      intro scope left _
      obtain ⟨settles, stops⟩ := inner (by simpa using same)
      obtain rfl : p.scope = scope := left.scope_eq
      refine .inner (by simp [Node.type]) (by simp [Node.type]) settles.scope_eq fun _ => ?_
      rw [Resolved]
      exact ⟨left.marked _ _ rfl, settles.resolved_of_lowest stops⟩
  | @emptyCall p callee position after opening _ =>
      intro scope left ends
      obtain rfl : p.scope = scope := left.scope_eq
      refine .selfCall .nil fun _ => ?_
      exact same ▸ calledAtOnce_of_nameEnds ends after opening
  | @call p q callee position args after opening _ _ list =>
      intro scope left ends
      obtain rfl : p.scope = scope := left.scope_eq
      have args := list (by simpa using same)
      refine .selfCall args fun _ => ?_
      exact same ▸ calledAtOnce_of_nameEnds ends after opening
  | emptyCallAgain _ opening _ =>
      intro scope left _
      exact .inner (by simp [Node.type]) (by simp [Node.type]) left.scope_eq fun _ =>
        left.resolved (by simp [opening])
  | callAgain _ opening _ _ list =>
      intro scope left _
      have args := list (by simpa using same)
      exact left.callAgain (by simp [opening]) args
  | operator known _ inner =>
      intro scope left _
      obtain ⟨settles, _⟩ := inner (by simpa using same)
      refine left.call (fun assign => ?_) ?_ fun noTarget => ?_
      · rw [assign] at known
        cases known
      · simpa [allAssignedNames] using settles.scope_eq
      · simpa [AllResolved] using settles.resolved noTarget
  | @signedNumber p q left right value _ written _ inner =>
      intro scope settled _
      obtain ⟨settles, _⟩ := inner (by simpa using same) p.scope
        (.leaf rfl rfl (by simp [Node.type]) (by simp [Node.type]) (by simp [Resolved])) trivial
      refine settled.call (fun assign => ?_) ?_ fun noTarget => ?_
      · rcases Token.kind_of_numeral written with kind | kind <;> simp [assign] at kind
      · simpa [allAssignedNames] using settles.scope_eq
      · simpa [AllResolved] using settles.resolved noTarget
  | send dot _ _ =>
      intro scope left _
      exact left.call (by simp [dot]) rfl fun _ => by simp [AllResolved]
  | sendWith dot _ _ _ list =>
      intro scope left _
      have args := list (by simpa using same)
      exact left.call (by simp [dot]) args.1 fun _ => args.2
  | @ternary p p₁ q left ifTrue ifFalse sign first _ _ true false =>
      intro scope condition _
      obtain ⟨settles, stops⟩ := true (by simpa using same)
      obtain ⟨settles', stops'⟩ := false (by simpa [first.tokens_eq] using same)
      have before : p.scope = scope.insertAll left.assignedNames := condition.scope_eq
      have between : p₁.scope = p.scope.insertAll ifTrue.assignedNames := settles.scope_eq
      refine .inner (by simp [Node.type]) (by simp [Node.type]) ?_ fun _ => ?_
      · rw [assignedNames, Names.insertAll_append, ← before, Names.insertAll_append, ← between]
        exact settles'.scope_eq
      · rw [Resolved, ← before, ← between]
        exact ⟨condition.resolved (by simp [sign]), settles.resolved_of_lowest stops,
          settles'.resolved_of_lowest stops'⟩
  | expression _ _ first _ leading rest =>
      have settles := leading (by simpa using same)
      obtain ⟨settles', stops⟩ := rest (by simpa [first.tokens_eq] using same) _ settles
        first.nameEnds_leading
      exact ⟨settles'.closed, stops⟩
  | longer _ _ first _ following rest =>
      intro scope left ends
      have settles := following same scope left ends
      exact rest (by simpa [first.tokens_eq] using same) scope settles first.nameEnds_following
  | @complete min p left stops =>
      intro scope settled _
      refine ⟨settled, fun assign tighter => ?_⟩
      have none := stops (by simpa [Token.precedence, assign] using tighter)
      simp [assign, TokenKind.following?] at none
  | noStatement _ => exact .nil
  | statement _ _ first _ _ node nodes =>
      obtain ⟨settles, stops⟩ := node (by simpa using same)
      exact .cons settles stops (nodes (by simpa [first.tokens_eq] using same))
  | lastBareArgument first _ arg =>
      obtain ⟨settles, stops⟩ := arg same
      exact .cons settles stops .nil
  | bareArgument first _ _ arg args =>
      obtain ⟨settles, stops⟩ := arg same
      exact .cons settles stops (args (by simpa [first.tokens_eq] using same))
  | lastArgument first _ arg =>
      obtain ⟨settles, stops⟩ := arg same
      exact .cons settles stops .nil
  | argument first _ _ arg args =>
      obtain ⟨settles, stops⟩ := arg same
      exact .cons settles stops (args (by simpa [first.tokens_eq] using same))
  | methodAlone _ _ _ body =>
      have settles := body (by simpa using same)
      exact ⟨rfl, fun _ mem => absurd mem List.not_mem_nil, settles.2⟩
  | methodNone _ _ _ _ _ body =>
      have settles := body (by simpa using same)
      exact ⟨rfl, fun _ mem => absurd mem List.not_mem_nil, settles.2⟩
  | methodList _ _ list _ _ _ params body =>
      obtain ⟨scope_eq, names⟩ := params (by simpa using same)
      have resolved := (body (by simpa [list.tokens_eq] using same)).2
      rw [Parser.scope_skipLines, scope_eq] at resolved
      exact ⟨rfl, names, resolved⟩
  | methodBare _ _ list _ _ _ params body =>
      obtain ⟨scope_eq, names⟩ := params (by simpa using same)
      have resolved := (body (by simpa [list.tokens_eq] using same)).2
      rw [Parser.scope_skipLines, scope_eq] at resolved
      exact ⟨rfl, names, resolved⟩
  | parameter _ _ => exact ⟨rfl, by simp [parameterName?]⟩
  | lastParameter _ _ param => exact param same
  | furtherParameter first _ _ param params =>
      exact (param same).cons (params (by simpa [first.tokens_eq] using same))
  | lastBareParameter _ _ param => exact param same
  | bareParameter first _ _ param params =>
      exact (param same).cons (params (by simpa [first.tokens_eq] using same))

/-- The names of every program are resolved in the scope it is read in, which
keeps what it knew and learns the names that are newly assigned, each where it
is assigned first. -/
theorem program_resolved {text : String} {locals symbols : Names} {node : Node} {q : Parser}
    (accepted : (Parser.ofTokens (lex text).tokens locals symbols).program = (.ok node, q)) :
    node.Resolved (lex text).tokens locals ∧
      q.scope.toList = locals.toList
        ++ (node.assignedNames.filter fun name => !locals.contains name).eraseDups := by
  obtain ⟨nodes, rfl, reads⟩ := Parser.program_eq_ok_iff.mp accepted
  obtain ⟨scope_eq, resolved⟩ := reads.scopes (tokens_lex text)
  refine ⟨?_, ?_⟩
  · rw [Node.Resolved]
    exact resolved
  · rw [scope_eq, Node.assignedNames, Names.toList_insertAll]
    rfl

/-- A call of a variable, an assignment inside its arguments, and a method whose
variables nobody else sees. -/
theorem program_resolved_of_variable_call :
    ∃ node q,
      (Parser.ofTokens (lex "x = s\nx(y = x)\ndef m(a)\n b = a\nend\n").tokens (.ofList ["s"])
          .empty).program = (.ok node, q) ∧
        node.Resolved (lex "x = s\nx(y = x)\ndef m(a)\n b = a\nend\n").tokens (.ofList ["s"]) ∧
        q.scope.toList = (Names.ofList ["s"]).toList
          ++ (node.assignedNames.filter fun name =>
              !(Names.ofList ["s"]).contains name).eraseDups := by
  obtain ⟨node, q, accepted⟩ := exists_of_isOk
    ((Parser.ofTokens (lex "x = s\nx(y = x)\ndef m(a)\n b = a\nend\n").tokens
      (.ofList ["s"]) .empty).program) (by cbv)
  exact ⟨node, q, accepted, program_resolved accepted⟩

end RubyReader
