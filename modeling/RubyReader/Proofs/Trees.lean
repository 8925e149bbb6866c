/-
# `Trees` — every tree that is read is well formed

A program is read as a block of expressions.  What an expression is made of is what its
place asks for (`Node.WellFormed`):

    target = value      a name, and an expression
    receiver.m(args)    an expression or the implicit self, a name, and expressions
    left + right        an operator, which has a receiver and one argument
    def m(params)       a name, and distinct names that are marked as local

One argument list is read behind a call that was finished already: it is given to the
call again, and that is no operator, since an operator is never without its argument.

The only tree that cannot be written is one with a parameter that is no name.  So what is
read can be written, and nothing fails but reading (`program_wellFormed`).
-/
import Mathlib
import RubyReader.Proofs.Token.Legible
import RubyReader.Proofs.Tree.Tagged

namespace RubyReader

open Node (AllWellFormed WellFormed parameterName?)

/-! ## Operators and names -/

theorem TokenKind.exists_ofOperator {kind : TokenKind} {name : String}
    (h : kind.operator? = some name) : ∃ found, ofOperator? name = some found := by
  have mem : kind ∈ all := by cases kind <;> decide
  refine Option.isSome_iff_exists.mp (List.find?_isSome.mpr ⟨kind, mem, ?_⟩)
  exact decide_eq_true h

/-- A name begins with a letter, and so it is no operator. -/
theorem IsName.ofOperator?_eq_none {name : String} (isName : IsName name) :
    TokenKind.ofOperator? name = none := by
  obtain ⟨c, cs, text, word⟩ := isName
  have letter : isWordStart c = true := Lexer.begins_of_classify (congrArg Prod.fst word)
  rw [Option.eq_none_iff_forall_ne_some]
  intro kind found
  have operator := TokenKind.operator?_of_ofOperator? found
  cases kind <;> cases operator <;> cases text <;> cases letter

/-! ## What was read -/

/-- A node that was read is an expression; if it is a name, one that was written. -/
structure Built (node : Node) : Prop where
  wellFormed : node.WellFormed
  isName : ∀ name position, node = .identifier name position → IsName name.name

/-- Parameters that were read are distinct names, none of which is in scope. -/
structure Parameters (scope : Names) (params : List Node) : Prop where
  each : ∀ param ∈ params, param.IsParameter
  distinct : (params.filterMap parameterName?).Nodup
  new : ∀ name ∈ params.filterMap parameterName?, name ∉ scope

/-- What the reading of a goal builds in a scope. -/
def Goal.Builds : (goal : Goal) → Names → goal.Result → Prop
  | .expression _, _, node => Built node
  | .leading _, _, node => Built node
  | .following _ left, _, node => Built left → Built node
  | .continuation left _, _, node => Built left → Built node
  | .statements _, _, nodes => AllWellFormed nodes
  | .bareArguments, _, nodes => AllWellFormed nodes
  | .arguments, _, nodes => AllWellFormed nodes
  | .method, _, (params, body) => Parameters .empty params ∧ AllWellFormed body
  | .parameter, scope, param => Parameters scope [param]
  | .parameters, scope, params => Parameters scope params
  | .bareParameters, scope, params => Parameters scope params

section Pieces

variable {left right : Node} {message : Symbol} {args : List Node} {position place : Position}

/-- What is no name only has to be an expression. -/
theorem Built.inner {node : Node} (type : node.type ≠ .identifier) (h : node.WellFormed) :
    Built node := by
  refine ⟨h, ?_⟩
  rintro name position rfl
  exact absurd rfl type

theorem Built.call (receives : left.type = .implicitSelf ∨ left.WellFormed)
    (h : AllWellFormed args) (isName : IsName message.name) :
    Built (.call left message args position) :=
  .inner NodeType.noConfusion (.named receives h isName.ofOperator?_eq_none isName)

theorem Built.operation {kind : TokenKind} (h : Built left) (h' : Built right)
    (operator : TokenKind.ofOperator? message.name = some kind) :
    Built (.call left message [right] position) :=
  .inner NodeType.noConfusion (.operation h.wellFormed h'.wellFormed operator)

theorem Built.callAgain (call : Built (.call left message [] place)) (h : AllWellFormed args) :
    Built (.call left message args position) := by
  obtain ⟨receives, -, kind⟩ := call.wellFormed
  cases operator : TokenKind.ofOperator? message.name with
  | some =>
      rw [operator] at kind
      exact absurd kind.2 Nat.zero_ne_one
  | none =>
      rw [operator] at kind
      exact .call receives h kind

theorem Parameters.nil : Parameters .empty [] :=
  ⟨fun _ mem => (List.not_mem_nil mem).elim, List.nodup_nil,
    fun _ mem => (List.not_mem_nil mem).elim⟩

theorem Parameters.cons {scope : Names} {p : Parser} {param : Node} {params : List Node}
    (first : Parameters scope [param]) (declares : Declares scope [param] p)
    (rest : Parameters p.scope params) : Parameters scope (param :: params) := by
  obtain ⟨name, found⟩ := declares.2 param List.mem_cons_self
  have scope_eq : p.scope = scope.insert name := by
    rw [declares.1, List.filterMap_cons_some found]
    rfl
  have names : (param :: params).filterMap parameterName?
      = name :: params.filterMap parameterName? := List.filterMap_cons_some found
  have new : name ∉ scope := first.new name (by simp [found])
  refine ⟨?_, ?_, ?_⟩
  · intro other mem
    rcases List.mem_cons.mp mem with rfl | mem
    · exact first.each other List.mem_cons_self
    · exact rest.each other mem
  · rw [names, List.nodup_cons]
    refine ⟨fun again => rest.new name again ?_, rest.distinct⟩
    rw [scope_eq, Names.mem_insert]
    exact .inr rfl
  · intro other mem known
    rw [names] at mem
    rcases List.mem_cons.mp mem with rfl | mem
    · exact new known
    · refine rest.new other mem ?_
      rw [scope_eq, Names.mem_insert]
      exact .inl known

end Pieces

theorem Parser.token_mem_tokens (p : Parser) : p.token ∈ p.cursor.tokens := by
  rw [Cursor.tokens_eq]
  exact List.mem_append_right _ List.mem_cons_self

/-- Legible tokens are read as expressions, by induction on the derivation. -/
theorem Reads.builds {limit : Option Nat} {goal : Goal} {p q : Parser} {a : goal.Result}
    (h : Reads limit goal p a q) (legible : ∀ token ∈ p.cursor.tokens, token.Legible) :
    goal.Builds p.scope a := by
  have here (p : Parser) (legible : ∀ token ∈ p.cursor.tokens, token.Legible) : p.token.Legible :=
    legible _ p.token_mem_tokens
  induction h with
  | trueLiteral _ | falseLiteral _ | nilLiteral _ | emptyGroup _ _ =>
      exact .inner NodeType.noConfusion trivial
  | @number p value written =>
      exact .inner NodeType.noConfusion ((here p legible).number value written)
  | symbol _ => exact .inner NodeType.noConfusion ⟨_, rfl⟩
  | string _ => exact .inner NodeType.noConfusion ⟨_, rfl⟩
  | @name p named _ =>
      refine ⟨named, ?_⟩
      rintro name position e
      cases e
      exact (here p legible).name named
  | @selfCall p named _ _ _ => exact .call (.inl rfl) trivial ((here p legible).name named)
  | @selfCallWith p _ _ named _ _ _ _ list =>
      exact .call (.inl rfl) (list (by simpa using legible)) ((here p legible).name named)
  | group _ _ _ _ inner => exact inner (by simpa using legible)
  | definition _ named _ method =>
      obtain ⟨params, body⟩ := method (by simpa using legible)
      exact .inner NodeType.noConfusion ⟨named, params.each, params.distinct, body⟩
  | assignment _ _ inner =>
      intro left
      have value : Built _ := inner (by simpa using legible)
      exact .inner NodeType.noConfusion ⟨left.wellFormed, value.wellFormed⟩
  | emptyCall _ _ _ =>
      intro left
      exact .call (.inl rfl) trivial (left.isName _ _ rfl)
  | call _ _ _ _ list =>
      intro left
      exact .call (.inl rfl) (list (by simpa using legible)) (left.isName _ _ rfl)
  | emptyCallAgain _ _ _ => exact id
  | callAgain _ _ _ _ list =>
      intro left
      exact left.callAgain (list (by simpa using legible))
  | operator known _ inner =>
      intro left
      obtain ⟨kind, operator⟩ := TokenKind.exists_ofOperator known
      exact left.operation (inner (by simpa using legible)) operator
  | @signedNumber p q _ right value signed written _ inner =>
      intro left
      obtain ⟨⟨kind, operator⟩, number⟩ := (here p legible).signed signed
      have first : Built (.literal value p.token.position) :=
        .inner NodeType.noConfusion (number value written)
      exact left.operation (inner (by simpa using legible) first) operator
  | @send p _ _ named _ =>
      intro left
      exact .call (.inr left.wellFormed) trivial
        ((here p.advance (by simpa using legible)).name named)
  | @sendWith p _ _ _ _ named _ _ list =>
      intro left
      exact .call (.inr left.wellFormed) (list (by simpa using legible))
        ((here p.advance (by simpa using legible)).name named)
  | ternary _ first _ _ true false =>
      intro condition
      have ifTrue : Built _ := true (by simpa using legible)
      have ifFalse : Built _ := false (by simpa [first.tokens_eq] using legible)
      exact .inner NodeType.noConfusion
        ⟨condition.wellFormed, ifTrue.wellFormed, ifFalse.wellFormed⟩
  | expression _ _ first _ leading rest =>
      exact rest (by simpa [first.tokens_eq] using legible) (leading (by simpa using legible))
  | longer _ _ first _ following rest =>
      exact fun left => rest (by simpa [first.tokens_eq] using legible) (following legible left)
  | complete _ => exact id
  | noStatement _ => trivial
  | statement _ _ first _ _ node nodes =>
      have built : Built _ := node (by simpa using legible)
      exact ⟨built.wellFormed, nodes (by simpa [first.tokens_eq] using legible)⟩
  | lastBareArgument _ _ arg =>
      have built : Built _ := arg legible
      exact ⟨built.wellFormed, trivial⟩
  | bareArgument first _ _ arg args =>
      have built : Built _ := arg legible
      exact ⟨built.wellFormed, args (by simpa [first.tokens_eq] using legible)⟩
  | lastArgument _ _ arg =>
      have built : Built _ := arg legible
      exact ⟨built.wellFormed, trivial⟩
  | argument first _ _ arg args =>
      have built : Built _ := arg legible
      exact ⟨built.wellFormed, args (by simpa [first.tokens_eq] using legible)⟩
  | methodAlone _ _ _ body => exact ⟨.nil, body (by simpa using legible)⟩
  | methodNone _ _ _ _ _ body => exact ⟨.nil, body (by simpa using legible)⟩
  | methodList _ _ list _ _ _ params body =>
      exact ⟨params (by simpa using legible), body (by simpa [list.tokens_eq] using legible)⟩
  | methodBare _ _ list _ _ _ params body =>
      exact ⟨params (by simpa using legible), body (by simpa [list.tokens_eq] using legible)⟩
  | parameter named new =>
      refine ⟨?_, ?_, ?_⟩ <;> simp [Node.IsParameter, parameterName?, Identifier.name, named, new]
  | lastParameter _ _ param => exact param legible
  | furtherParameter first _ _ param params =>
      exact (param legible).cons (first.scopes rfl)
        (params (by simpa [first.tokens_eq] using legible))
  | lastBareParameter _ _ param => exact param legible
  | bareParameter first _ _ param params =>
      exact (param legible).cons (first.scopes rfl)
        (params (by simpa [first.tokens_eq] using legible))

/-! ## Programs -/

/-- The statements of a program are expressions. -/
theorem Parser.allWellFormed_of_program {text : String} {scope symbols : Names} {node : Node}
    {q : Parser} (accepted : (ofTokens (lex text).tokens scope symbols).program = (.ok node, q)) :
    ∃ nodes position, node = .block nodes position ∧ AllWellFormed nodes := by
  obtain ⟨nodes, rfl, reads⟩ := program_eq_ok_iff.mp accepted
  have same : (ofTokens (lex text).tokens scope symbols).cursor.tokens = (lex text).tokens :=
    tokens_lex text
  refine ⟨nodes, _, rfl, reads.builds ?_⟩
  rw [same]
  exact fun token mem => legible_of_mem_lex mem

/-- A block of expressions can be written. -/
theorem Node.exists_sexp {nodes : List Node} (h : AllWellFormed nodes) (position : Position)
    (symbols : Names) : ∃ value after, (block nodes position).sexp symbols = (.ok value, after) :=
  ⟨_, sexp_eq_ok_iff.mpr ⟨h.writable, rfl⟩⟩

/-- Reading is all that can go wrong on the way from a text to its tagged list. -/
theorem Session.parseToSexp_eq_error_iff {session : Session} {text : String} {error : ParseError} :
    (session.parseToSexp text).1 = .error error ↔ (session.parse text).1 = .error error := by
  unfold parseToSexp
  split
  · rename_i node after read
    obtain ⟨_, q, program, _⟩ := parse_eq_ok_iff.mp read
    obtain ⟨nodes, position, rfl, expressions⟩ := Parser.allWellFormed_of_program program
    obtain ⟨value, symbols, written⟩ := Node.exists_sexp expressions position after.symbols
    rw [toSexp, written, read]
    simp
  · rename_i error' after failed
    rw [failed]
    simp

/-- Whatever a text is read as is a block of expressions, and can be written with any
symbols; so an input is not written only if it is not read, for the same error. -/
theorem program_wellFormed {text : String} {scope symbols : Names} {node : Node} {q : Parser}
    (accepted : (Parser.ofTokens (lex text).tokens scope symbols).program = (.ok node, q)) :
    (∃ nodes position, node = .block nodes position ∧ AllWellFormed nodes) ∧
      (∀ names, ∃ value after, node.sexp names = (.ok value, after)) ∧
      ∀ (session : Session) (text : String) (error : ParseError),
        (session.parseToSexp text).1 = .error error ↔ (session.parse text).1 = .error error := by
  obtain ⟨nodes, position, rfl, expressions⟩ := Parser.allWellFormed_of_program accepted
  exact ⟨⟨nodes, position, rfl, expressions⟩, Node.exists_sexp expressions position,
    fun _ _ _ => Session.parseToSexp_eq_error_iff⟩

/-- A method with two parameters, a signed number behind a name, and a call that is given
its arguments later. -/
theorem program_wellFormed_of_method :
    ∃ node q,
      (Parser.ofTokens (lex "def m(a, b)\n a -1\nend\nx.m(y = 2)").tokens
          (.ofList ["x"]) .empty).program = (.ok node, q) ∧
        (∃ nodes position, node = .block nodes position ∧ AllWellFormed nodes) ∧
        (∀ names, ∃ value after, node.sexp names = (.ok value, after)) ∧
        ∀ (session : Session) (text : String) (error : ParseError),
          (session.parseToSexp text).1 = .error error ↔
            (session.parse text).1 = .error error := by
  obtain ⟨node, q, accepted⟩ := exists_of_isOk
    ((Parser.ofTokens (lex "def m(a, b)\n a -1\nend\nx.m(y = 2)").tokens
      (.ofList ["x"]) .empty).program) (by cbv)
  exact ⟨node, q, accepted, program_wellFormed accepted⟩

end RubyReader
