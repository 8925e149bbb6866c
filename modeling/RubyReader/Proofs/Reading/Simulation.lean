/-
# `Simulation` — phrases are read again from respelled tokens

Wherever a phrase is read from tokens, it is read from these written in another way, as a tree
that agrees with the first one when each is moved (`Reads.simulated`).  The induction runs over
the reading of the first tokens, up to the tail, with a parser of the others beside.

Between its tokens a phrase passes over line ends only where it asks for that, so it depends on
the phrase how the two parsers may stand at first:

    Beside     an expression, statements, arguments, a method, parameters on one line
    InStep     a leading form, a parameter, parameters between parentheses
    Meets      a following form, which is another one where a sign is glued
    Abreast    a continuation

Behind a phrase they are abreast, behind statements in step.  An operand that begins with
digits is not opened as an expression where its sign is glued to them; so of an expression that
begins with a number it is also said that what follows the number is read again as what
continues it (`Respelling.RecoversDigits`).

One lemma for each form says what becomes of it (`simulated_group`, …), from what becomes of
the phrases inside it; the induction only puts them together.
-/
import RubyReader.Proofs.Reading.Respelling

namespace RubyReader

open Grammar (splitFirst)

namespace Respelling

variable (s : Respelling)

/-- Two trees that agree when each is moved. -/
def Agrees (node' node : Node) : Prop := node'.relocate s.move' = node.relocate s.move

/-- Lists of trees that agree when each is moved. -/
def AllAgree (nodes' nodes : List Node) : Prop :=
  Node.relocateAll s.move' nodes' = Node.relocateAll s.move nodes

/-- What `read` says of two parsers, the second not beyond the tail, is found again from every
parser that stands as `start` says to the first, and the parsers behind it stand as `finish`
says. -/
def Recovers (start finish : Parser → Parser → Prop) (p q : Parser)
    (read : Parser → Parser → Prop) : Prop :=
  q.UpTo s.tail → ∀ p', start p p' → ∃ q', read p' q' ∧ finish q q'

/-- Of an expression that begins with a number, what follows the number is found again as what
continues it. -/
def RecoversDigits (limit : Option Nat) (min : Precedence) (p : Parser) (node : Node)
    (q : Parser) : Prop :=
  p.token.kind.isNumber = true → ∃ value, p.token.numeral? p.token.literal = some value ∧
    ∀ place, s.move' place = s.move p.token.position →
      s.Recovers (Abreast s) (Abreast s) p.advance q fun p' q' => ∃ node',
        Reads limit (.continuation (.literal value place) min) p' node' q' ∧ s.Agrees node' node

end Respelling

/-- A phrase is read again from respelled tokens. -/
def Goal.Simulated (limit : Option Nat) (s : Respelling) :
    (goal : Goal) → Parser → goal.Result → Parser → Prop
  | .expression min, p, node, q =>
    (s.Recovers (Beside s) (Abreast s) p q fun p' q' => ∃ node',
      Reads limit (.expression min) p' node' q' ∧ s.Agrees node' node) ∧
    s.RecoversDigits limit min p node q
  | .leading form, p, node, q => s.Recovers (InStep s) (Abreast s) p q fun p' q' => ∃ node',
    Reads limit (.leading form) p' node' q' ∧ s.Agrees node' node
  | .following _ left, p, node, q => ∀ left', s.Agrees left' left →
    s.Recovers (fun p p' => Meets s p p' ∧ p'.afterParen = p.afterParen) (Abreast s) p q
      fun p' q' => ∃ form' node', p'.token.kind.following? = some form' ∧
        Reads limit (.following form' left') p' node' q' ∧ s.Agrees node' node
  | .continuation left min, p, node, q => p.Settled → ∀ left', s.Agrees left' left →
    s.Recovers (Abreast s) (Abreast s) p q fun p' q' => ∃ node',
      Reads limit (.continuation left' min) p' node' q' ∧ s.Agrees node' node
  | .statements terminator, p, nodes, q =>
    terminator.sign? = none ∧ terminator.isNumber = false → q.Within s.tail →
    s.Recovers (Beside s) (InStep s) p q fun p' q' => ∃ nodes',
      Reads limit (.statements terminator) p' nodes' q' ∧ s.AllAgree nodes' nodes
  | .bareArguments, p, nodes, q => s.Recovers (Beside s) (Abreast s) p q fun p' q' => ∃ nodes',
    Reads limit .bareArguments p' nodes' q' ∧ s.AllAgree nodes' nodes
  | .arguments, p, nodes, q => s.Recovers (Beside s) (Abreast s) p q fun p' q' => ∃ nodes',
    Reads limit .arguments p' nodes' q' ∧ s.AllAgree nodes' nodes
  | .method, p, (params, body), q => p.Settled → OwesParameter p.cursor.before →
    s.Recovers (Beside s) (Abreast s) p q fun p' q' => ∃ params' body',
      Reads limit .method p' (params', body') q' ∧ s.AllAgree params' params ∧
        s.AllAgree body' body
  | .parameter, p, node, q => s.Recovers (InStep s) (Abreast s) p q fun p' q' => ∃ node',
    Reads limit .parameter p' node' q' ∧ s.Agrees node' node
  | .parameters, p, nodes, q => s.Recovers (InStep s) (Abreast s) p q fun p' q' => ∃ nodes',
    Reads limit .parameters p' nodes' q' ∧ s.AllAgree nodes' nodes
  | .bareParameters, p, nodes, q => OwesParameter p.cursor.before →
    s.Recovers (Beside s) (Abreast s) p q fun p' q' => ∃ nodes',
      Reads limit .bareParameters p' nodes' q' ∧ s.AllAgree nodes' nodes

section

open Node

variable {limit : Option Nat} {s : Respelling} {p p₁ q : Parser} {min : Precedence}
  {left node : Node} {args params body : List Node}

/-! ## Leading forms -/

/-- A token that is a tree by itself. -/
theorem simulated_leaf {form : LeadingForm} {leaf : Position → Node}
    (noEof : p.token.kind ≠ .eof)
    (moves : ∀ move place, (leaf place).relocate move = leaf (move place))
    (reads : ∀ p' : Parser, (∃ place, p'.token = { p.token with position := place }) →
      Reads limit (.leading form) p' (leaf p'.token.position) p'.advance) :
    Goal.Simulated limit s (.leading form) p (leaf p.token.position) p.advance := by
  intro _ p' inStep
  obtain ⟨place, here, token⟩ := inStep.token_eq
  refine ⟨_, ⟨_, reads p' ⟨place, token⟩, ?_⟩, inStep.advance noEof⟩
  rw [Respelling.Agrees, moves, moves, token]
  exact congrArg leaf here

theorem simulated_symbol (kind : p.token.kind = .symbol) :
    Goal.Simulated limit s (.leading .symbol) p
      (.symbol (.sym ⟨p.token.literal⟩) p.token.position) (p.advance.intern p.token.literal) := by
  intro _ p' inStep
  obtain ⟨place, here, token, after⟩ := inStep.take kind (by decide)
  refine ⟨_, ⟨_, .symbol (by rw [token]; exact kind), ?_⟩, after.intern _ _⟩
  rw [token]
  exact congrArg (Node.symbol _) here

theorem simulated_name (named : p.token.kind = .identifier)
    (known : p.token.literal ∈ p.scope ∨ p.advance.token.kind = .assign) :
    Goal.Simulated limit s (.leading .name) p
      (.identifier ⟨p.token, p.scope.contains p.token.literal⟩ p.token.position) p.advance := by
  intro _ p' inStep
  obtain ⟨place, here, token, after⟩ := inStep.take named (by decide)
  have known' : p'.token.literal ∈ p'.scope ∨ p'.advance.token.kind = .assign := by
    rw [token, inStep.scope_eq, after.assign_iff (.advance named rfl)]
    exact known
  refine ⟨_, ⟨_, .name (by rw [token]; exact named) known', ?_⟩, after⟩
  rw [token, inStep.scope_eq]
  exact relocate_identifier_eq (Identifier.relocate_eq ⟨p.token, _⟩ here) here

theorem simulated_selfCall (named : p.token.kind = .identifier)
    (unknown : p.token.literal ∉ p.scope) (noTarget : p.advance.token.kind ≠ .assign)
    (noArgument : p.advance.token.beginsBareArgument = false) :
    Goal.Simulated limit s (.leading .name) p
      (.call (.implicitSelf p.token.position) ⟨p.token.literal⟩ [] p.token.position)
      (p.advance.intern p.token.literal) := by
  intro _ p' inStep
  obtain ⟨place, here, token, after⟩ := inStep.take named (by decide)
  have settled : p.advance.Settled := .advance named rfl
  have unknown' : p'.token.literal ∉ p'.scope := by
    rw [token, inStep.scope_eq]
    exact unknown
  refine ⟨_, ⟨_, .selfCall (by rw [token]; exact named) unknown'
    (by rwa [Ne, after.assign_iff settled])
    (by rwa [after.beginsBareArgument_eq settled]), ?_⟩, after.intern _ _⟩
  rw [token]
  exact relocate_call_eq (congrArg Node.implicitSelf here) rfl here

theorem simulated_selfCallWith (named : p.token.kind = .identifier)
    (unknown : p.token.literal ∉ p.scope) (noTarget : p.advance.token.kind ≠ .assign)
    (begins : p.advance.token.beginsBareArgument = true)
    (ih : Goal.Simulated limit s .bareArguments (p.advance.intern p.token.literal) args q) :
    Goal.Simulated limit s (.leading .name) p
      (.call (.implicitSelf p.token.position) ⟨p.token.literal⟩ args p.token.position) q := by
  intro up p' inStep
  obtain ⟨place, here, token, after⟩ := inStep.take named (by decide)
  have settled : p.advance.Settled := .advance named rfl
  have unknown' : p'.token.literal ∉ p'.scope := by
    rw [token, inStep.scope_eq]
    exact unknown
  obtain ⟨q', ⟨args', list', agree⟩, finish⟩ := ih up _ (after.toBeside.intern _ p'.token.literal)
  refine ⟨q', ⟨_, .selfCallWith (by rw [token]; exact named) unknown'
    (by rwa [Ne, after.assign_iff settled])
    (by rwa [after.beginsBareArgument_eq settled]) list', ?_⟩, finish⟩
  rw [token]
  exact relocate_call_eq (congrArg Node.implicitSelf here) agree here

theorem simulated_emptyGroup (opening : p.token.kind = .lparen)
    (closing : p.advance.skipLines.token.kind = .rparen) :
    Goal.Simulated limit s (.leading .group) p (.nilLiteral p.token.position)
      p.advance.skipLines.advance := by
  intro up p' inStep
  obtain ⟨place, here, token, behind⟩ := inStep.take opening (by decide)
  have lines := behind.skipLines (up.within (by simp [closing]))
  obtain ⟨closing', after⟩ := lines.pass closing (by decide)
  refine ⟨_, ⟨_, .emptyGroup (by rw [token]; exact opening) closing', ?_⟩, after⟩
  rw [token]
  exact congrArg Node.nilLiteral here

theorem simulated_group (opening : p.token.kind = .lparen)
    (more : p.advance.skipLines.token.kind ≠ .rparen)
    (inner : Reads limit (.expression .lowest) p.advance.skipLines node q)
    (closing : q.skipLines.token.kind = .rparen)
    (ih : Goal.Simulated limit s (.expression .lowest) p.advance.skipLines node q) :
    Goal.Simulated limit s (.leading .group) p node q.skipLines.advance := by
  intro up p' inStep
  have ends := up.within (by simp [closing])
  have up₁ := ends.of_skipLines.upTo
  obtain ⟨opening', behind⟩ := inStep.pass opening (by decide)
  have lines := behind.skipLines (inner.within rfl up₁)
  obtain ⟨q', ⟨node', inner', agree⟩, there⟩ := ih.1 up₁ _ lines.beside
  obtain ⟨closing', after⟩ := (there.skipLines ends).pass closing (by decide)
  exact ⟨_, ⟨node', .group opening' (by rwa [Ne, lines.kind_iff (by decide)]) inner' closing',
    agree⟩, after⟩

theorem simulated_definition (opening : p.token.kind = .kwDef)
    (named : p.advance.token.kind = .identifier)
    (method : Reads limit .method p.advance.advance (params, body) q)
    (ih : Goal.Simulated limit s .method p.advance.advance (params, body) q) :
    Goal.Simulated limit s (.leading .definition) p
      (.definition ⟨p.advance.token, false⟩ params body p.token.position) q := by
  intro up p' inStep
  obtain ⟨place, here, token, behind⟩ := inStep.take opening (by decide)
  have within := (method.upTo up).within (by simp [named])
  obtain ⟨place', here', token', after⟩ :=
    behind.take (.advance opening rfl) within named (by decide)
  have owes : OwesParameter p.advance.advance.cursor.before := by
    rw [Parser.before_advance (by simp [named]), Parser.before_advance (by simp [opening])]
    exact .first opening named
  obtain ⟨q', ⟨params', body', method', agree, agree'⟩, finish⟩ :=
    ih (.advance named rfl) owes up _ after.toBeside
  refine ⟨q', ⟨_, .definition (by rw [token]; exact opening)
    (by rw [token']; exact named) method', ?_⟩, finish⟩
  rw [token, token']
  exact relocate_definition_eq (Identifier.relocate_eq ⟨p.advance.token, false⟩ here') agree
    agree' here

/-! ## Following forms -/

theorem simulated_assignment {target : Identifier} {position : Position} {value : Node}
    (assign : p.token.kind = .assign)
    (ih : Goal.Simulated limit s (.expression .lowest) (p.advance.declare target.name) value q) :
    Goal.Simulated limit s (.following .assignment (.identifier target position)) p
      (.assignment target value p.token.position) q := by
  rintro left' like up p' ⟨meets, -⟩
  obtain ⟨place, position', named, -, rfl⟩ := exists_identifier like
  obtain ⟨place', here, token, after⟩ := meets.take assign (by decide)
  obtain ⟨q', ⟨value', inner', agree⟩, finish⟩ := ih.1 up _ (after.toBeside.declare target.name)
  refine ⟨q', ⟨.assignment, _, by rw [token]; exact congrArg TokenKind.following? assign,
    .assignment (by rw [token]; exact assign) inner', ?_⟩, finish⟩
  rw [token]
  exact relocate_assignment_eq (target.relocate_eq named) agree here

theorem simulated_emptyCall {callee : Identifier} {position : Position}
    (notAfter : p.afterParen = false) (opening : p.token.kind = .lparen)
    (closing : p.advance.skipLines.token.kind = .rparen) :
    Goal.Simulated limit s (.following .call (.identifier callee position)) p
      (.call (.implicitSelf position) ⟨callee.name⟩ [] position)
      ((p.intern callee.name).advance.skipLines.advance) := by
  rintro left' like up p' ⟨meets, same⟩
  obtain ⟨place, position', -, here, rfl⟩ := exists_identifier like
  obtain ⟨opening', behind⟩ := meets.pass opening (by decide)
  have lines := behind.skipLines (Parser.UpTo.within (p := p.advance.skipLines) up
    (by simp [closing]))
  obtain ⟨closing', after⟩ := lines.pass closing (by decide)
  exact ⟨_, ⟨.call, _, congrArg TokenKind.following? opening',
    .emptyCall (by rw [same, notAfter]) opening' closing',
    relocate_call_eq (congrArg Node.implicitSelf here) rfl here⟩, after.intern _ _⟩

theorem simulated_call {callee : Identifier} {position : Position}
    (notAfter : p.afterParen = false) (opening : p.token.kind = .lparen)
    (more : p.advance.skipLines.token.kind ≠ .rparen)
    (list : Reads limit .arguments ((p.intern callee.name).advance.skipLines) args q)
    (ih : Goal.Simulated limit s .arguments ((p.intern callee.name).advance.skipLines) args q) :
    Goal.Simulated limit s (.following .call (.identifier callee position)) p
      (.call (.implicitSelf position) ⟨callee.name⟩ args position) q := by
  rintro left' like up p' ⟨meets, same⟩
  obtain ⟨place, position', -, here, rfl⟩ := exists_identifier like
  obtain ⟨opening', behind⟩ := meets.pass opening (by decide)
  have within : p.advance.skipLines.Within s.tail := list.within rfl up
  have lines := behind.skipLines within
  obtain ⟨q', ⟨args', list', agree⟩, finish⟩ :=
    ih up _ (lines.beside.intern callee.name callee.name)
  exact ⟨q', ⟨.call, _, congrArg TokenKind.following? opening',
    .call (by rw [same, notAfter]) opening' (by rwa [Ne, lines.kind_iff (by decide)]) list',
    relocate_call_eq (congrArg Node.implicitSelf here) agree here⟩, finish⟩

theorem simulated_emptyCallAgain {receiver : Node} {message : Symbol} {position : Position}
    (notAfter : p.afterParen = false) (opening : p.token.kind = .lparen)
    (closing : p.advance.skipLines.token.kind = .rparen) :
    Goal.Simulated limit s (.following .call (.call receiver message [] position)) p
      (.call receiver message [] position) p.advance.skipLines.advance := by
  rintro left' like up p' ⟨meets, same⟩
  obtain ⟨receiver', position', agree, here, rfl⟩ := exists_call like
  obtain ⟨opening', behind⟩ := meets.pass opening (by decide)
  have lines := behind.skipLines (up.within (by simp [closing]))
  obtain ⟨closing', after⟩ := lines.pass closing (by decide)
  exact ⟨_, ⟨.call, _, congrArg TokenKind.following? opening',
    .emptyCallAgain (by rw [same, notAfter]) opening' closing',
    relocate_call_eq agree rfl here⟩, after⟩

theorem simulated_callAgain {receiver : Node} {message : Symbol} {position : Position}
    (notAfter : p.afterParen = false) (opening : p.token.kind = .lparen)
    (more : p.advance.skipLines.token.kind ≠ .rparen)
    (list : Reads limit .arguments p.advance.skipLines args q)
    (ih : Goal.Simulated limit s .arguments p.advance.skipLines args q) :
    Goal.Simulated limit s (.following .call (.call receiver message [] position)) p
      (.call receiver message args position) q := by
  rintro left' like up p' ⟨meets, same⟩
  obtain ⟨receiver', position', agree, here, rfl⟩ := exists_call like
  obtain ⟨opening', behind⟩ := meets.pass opening (by decide)
  have lines := behind.skipLines (list.within rfl up)
  obtain ⟨q', ⟨args', list', agree'⟩, finish⟩ := ih up _ lines.beside
  exact ⟨q', ⟨.call, _, congrArg TokenKind.following? opening',
    .callAgain (by rw [same, notAfter]) opening' (by rwa [Ne, lines.kind_iff (by decide)]) list',
    relocate_call_eq agree agree' here⟩, finish⟩

/-- A sign that is glued to the digits behind it: its operand was opened as an expression, and
is now what continues these digits. -/
theorem AtGlued.recovers {left' right : Node} {name : String} {p' : Parser} (h : AtGlued s p p')
    (known : p.token.kind.operator? = some name) (like : s.Agrees left' left)
    (up : q.UpTo s.tail)
    (digits : s.RecoversDigits limit p.token.precedence (p.advance.intern name) right q) :
    ∃ q', (∃ form' node', p'.token.kind.following? = some form' ∧
      Reads limit (.following form' left') p' node' q' ∧
        s.Agrees node' (.call left ⟨name⟩ [right] p.token.position)) ∧ Abreast s q q' := by
  obtain ⟨-, -, text, place, signs, isNumber, unsigned, here, here', glued, step⟩ := h
  obtain rfl : name = text :=
    Option.some.inj (known.symm.trans (TokenKind.operator?_of_sign signs))
  obtain ⟨value, written, continues⟩ := digits isNumber
  obtain ⟨q', ⟨right', inner', agree⟩, finish⟩ := continues place here' up _ (step.intern name name)
  have split : splitFirst p'.token.literal = (name, p.advance.token.literal) := by
    rw [glued]
    exact splitFirst_sign signs _
  have isSigned : p'.token.signed = true := by
    rw [glued]
    exact signed_new signs isNumber _ place
  have position : p'.token.position = place := by
    rw [glued]
    rfl
  have written' : p'.token.numeral? (splitFirst p'.token.literal).2 = some value := by
    rw [split, glued]
    exact written
  have reads : Reads limit (.following .signedNumber left') p' _ q' :=
    .signedNumber isSigned written'
      (by rw [split, position, ← Token.precedence_of_sign signs]; exact inner')
  rw [split, position] at reads
  exact ⟨q', ⟨.signedNumber, _, Token.following?_of_numeral written', reads,
    relocate_call_eq like (relocateAll_cons_eq agree rfl) here⟩, finish⟩

theorem simulated_operator {right : Node} {name : String}
    (known : p.token.kind.operator? = some name)
    (ih : Goal.Simulated limit s (.expression p.token.precedence) (p.advance.intern name) right q) :
    Goal.Simulated limit s (.following .operator left) p
      (.call left ⟨name⟩ [right] p.token.position) q := by
  rintro left' like up p' ⟨inStep | glued, -⟩
  · obtain ⟨place, here, token, after⟩ := inStep.take rfl (TokenKind.ne_eof_of_operator known)
    obtain ⟨q', ⟨right', inner', agree⟩, finish⟩ := ih.1 up _ (after.toBeside.intern name name)
    have known' : p'.token.kind.operator? = some name := by rw [token]; exact known
    refine ⟨q', ⟨.operator, _, TokenKind.following?_of_operator known',
      .operator known' (by rw [token]; exact inner'), ?_⟩, finish⟩
    rw [token]
    exact relocate_call_eq like (relocateAll_cons_eq agree rfl) here
  · exact glued.recovers known like up ih.2

theorem simulated_signedNumber {right : Node} {value : Value} (isSigned : p.token.signed = true)
    (written : p.token.numeral? (splitFirst p.token.literal).2 = some value)
    (ih : Goal.Simulated limit s (.continuation (.literal value p.token.position) .sum)
      (p.advance.intern (splitFirst p.token.literal).1) right q) :
    Goal.Simulated limit s (.following .signedNumber left) p
      (.call left ⟨(splitFirst p.token.literal).1⟩ [right] p.token.position) q := by
  rintro left' like up p' ⟨meets, -⟩
  have noSign : p.token.kind.sign? = none := by
    rcases Token.kind_of_numeral written with kind | kind <;> rw [kind] <;> rfl
  obtain ⟨place, here, token, after⟩ := meets.take rfl ⟨noSign, Token.ne_eof_of_numeral written⟩
  have settled : p.advance.Settled := .step (TokenKind.settles_of_numeral written)
  obtain ⟨q', ⟨right', inner', agree⟩, finish⟩ :=
    ih settled (.literal value place) (congrArg (Node.literal value) here) up _
      (after.intern _ (splitFirst p.token.literal).1)
  have written' : p'.token.numeral? (splitFirst p'.token.literal).2 = some value := by
    rw [token]
    exact written
  refine ⟨q', ⟨.signedNumber, _, Token.following?_of_numeral written',
    .signedNumber (by rw [token]; exact isSigned) written' (by rw [token]; exact inner'), ?_⟩,
    finish⟩
  rw [token]
  exact relocate_call_eq like (relocateAll_cons_eq agree rfl) here

theorem simulated_send (dot : p.token.kind = .dot) (named : p.advance.token.kind = .identifier)
    (noArgument : p.advance.advance.token.beginsBareArgument = false) :
    Goal.Simulated limit s (.following .send left) p
      (.call left ⟨p.advance.token.literal⟩ [] p.token.position)
      (p.advance.advance.intern p.advance.token.literal) := by
  rintro left' like up p' ⟨meets, -⟩
  obtain ⟨place, here, token, behind⟩ := meets.take dot (by decide)
  have within := Parser.UpTo.within (p := p.advance) up (by simp [named])
  obtain ⟨_, _, token', after⟩ := behind.take (.advance dot rfl) within named (by decide)
  have settled : p.advance.advance.Settled := .advance named rfl
  refine ⟨_, ⟨.send, _, by rw [token]; exact congrArg TokenKind.following? dot,
    .send (by rw [token]; exact dot) (by rw [token']; exact named)
      (by rwa [after.beginsBareArgument_eq settled]), ?_⟩, after.intern _ _⟩
  rw [token, token']
  exact relocate_call_eq like rfl here

theorem simulated_sendWith (dot : p.token.kind = .dot)
    (named : p.advance.token.kind = .identifier)
    (begins : p.advance.advance.token.beginsBareArgument = true)
    (list : Reads limit .bareArguments (p.advance.advance.intern p.advance.token.literal) args q)
    (ih : Goal.Simulated limit s .bareArguments
      (p.advance.advance.intern p.advance.token.literal) args q) :
    Goal.Simulated limit s (.following .send left) p
      (.call left ⟨p.advance.token.literal⟩ args p.token.position) q := by
  rintro left' like up p' ⟨meets, -⟩
  obtain ⟨place, here, token, behind⟩ := meets.take dot (by decide)
  have inside : p.advance.advance.Within s.tail := list.within rfl up
  have within := inside.upTo.within (by simp [named])
  obtain ⟨_, _, token', after⟩ := behind.take (.advance dot rfl) within named (by decide)
  have settled : p.advance.advance.Settled := .advance named rfl
  obtain ⟨q', ⟨args', list', agree⟩, finish⟩ :=
    ih up _ (after.toBeside.intern _ p'.advance.token.literal)
  refine ⟨q', ⟨.send, _, by rw [token]; exact congrArg TokenKind.following? dot,
    .sendWith (by rw [token]; exact dot) (by rw [token']; exact named)
      (by rwa [after.beginsBareArgument_eq settled]) list', ?_⟩, finish⟩
  rw [token, token']
  exact relocate_call_eq like agree here

theorem simulated_ternary {ifTrue ifFalse : Node} (question : p.token.kind = .question)
    (colon : p₁.skipLines.token.kind = .colon)
    (second : Reads limit (.expression .lowest) p₁.skipLines.advance ifFalse q)
    (ih : Goal.Simulated limit s (.expression .lowest) p.advance ifTrue p₁)
    (ih' : Goal.Simulated limit s (.expression .lowest) p₁.skipLines.advance ifFalse q) :
    Goal.Simulated limit s (.following .ternary left) p
      (.conditional left ifTrue ifFalse p.token.position) q := by
  rintro left' like up p' ⟨meets, -⟩
  have ends := (second.upTo up).within (by simp [colon])
  obtain ⟨place, here, token, after⟩ := meets.take question (by decide)
  obtain ⟨p₁', ⟨ifTrue', first', agree⟩, there⟩ := ih.1 ends.of_skipLines.upTo _ after.toBeside
  obtain ⟨colon', behind⟩ := (there.skipLines ends).pass colon (by decide)
  obtain ⟨q', ⟨ifFalse', second', agree'⟩, finish⟩ := ih'.1 up _ behind.toBeside
  refine ⟨q', ⟨.ternary, _, by rw [token]; exact congrArg TokenKind.following? question,
    .ternary (by rw [token]; exact question) first' colon' second', ?_⟩, finish⟩
  rw [token]
  exact relocate_conditional_eq like agree agree' here

/-! ## Expressions -/

theorem recoversDigits_expression {form : LeadingForm}
    (leads : p.skipLines.token.kind.leading? = some form)
    (first : Reads limit (.leading form) p.opened.skipLines left p₁)
    (rest : Reads limit (.continuation left min) p₁ node q)
    (ih : Goal.Simulated limit s (.continuation left min) p₁ node q) :
    s.RecoversDigits limit min p node q.closed := by
  intro isNumber
  have noLine : p.token.kind ≠ .newline := by
    rcases TokenKind.number_cases isNumber with kind | kind <;> simp [kind]
  have lines : p.skipLines = p := Parser.skipLines_of_ne noLine
  have opened : p.opened.skipLines = p.opened := congrArg Parser.opened lines
  rw [lines, TokenKind.leading?_of_number isNumber] at leads
  obtain rfl := Option.some.inj leads
  rw [opened] at first
  cases first with
  | @number _ value written =>
      refine ⟨value, written, fun place here up p' same => ?_⟩
      have settled : p.opened.advance.Settled :=
        .step (p := p.opened) (TokenKind.settles_of_numeral written)
      have inside : Abreast s p.opened.advance p' :=
        ⟨⟨same.respelled, same.scope_eq, Nat.le_succ_of_le same.depth_le⟩, same.afterParen_eq⟩
      obtain ⟨q', ⟨node', rest', agree⟩, finish⟩ :=
        ih settled (.literal value place) (congrArg (Node.literal value) here) up _ inside
      refine ⟨q', ⟨node', rest', agree⟩, ⟨finish.respelled, finish.scope_eq, ?_⟩,
        finish.afterParen_eq⟩
      -- outside the expression, and not only inside
      rw [rest'.depth_eq, Parser.depth_closed, rest.depth_eq]
      exact same.depth_le

theorem simulated_expression {form : LeadingForm} (room : p.isFull limit = false)
    (leads : p.skipLines.token.kind.leading? = some form)
    (first : Reads limit (.leading form) p.opened.skipLines left p₁)
    (rest : Reads limit (.continuation left min) p₁ node q)
    (ih : Goal.Simulated limit s (.leading form) p.opened.skipLines left p₁)
    (ih' : Goal.Simulated limit s (.continuation left min) p₁ node q) :
    Goal.Simulated limit s (.expression min) p node q.closed := by
  refine ⟨fun up p' same => ?_, recoversDigits_expression leads first rest ih'⟩
  have up₁ : p₁.UpTo s.tail := rest.upTo up
  have meets := same.opened.skipLines (first.within rfl up₁)
  have inStep := meets.inStep (TokenKind.noSign_of_leading leads)
  obtain ⟨p₁', ⟨left', first', agree⟩, there⟩ := ih up₁ _ inStep
  obtain ⟨q', ⟨node', rest', agree'⟩, finish⟩ := ih' first.settles left' agree up _ there
  have kind : p'.skipLines.token.kind = p.skipLines.token.kind := inStep.kind_eq
  exact ⟨q'.closed, ⟨node', .expression (same.isFull_eq room) (by rwa [kind]) first' rest',
    agree'⟩, finish.closed⟩

theorem simulated_longer {form : FollowingForm} {longer : Node} (lt : min < p.token.precedence)
    (follows : p.token.kind.following? = some form)
    (first : Reads limit (.following form left) p longer p₁)
    (rest : Reads limit (.continuation longer min) p₁ node q)
    (ih : Goal.Simulated limit s (.following form left) p longer p₁)
    (ih' : Goal.Simulated limit s (.continuation longer min) p₁ node q) :
    Goal.Simulated limit s (.continuation left min) p node q := by
  intro settled left' like up p' same
  have up₁ := rest.upTo up
  have opens : p.token.kind ≠ .rparen ∧ p.token.kind ≠ .colon := by
    constructor <;> intro kind <;> rw [kind] at follows <;> cases follows
  have meets := same.meets settled (first.within rfl up₁) opens
  obtain ⟨p₁', ⟨form', longer', follows', first', agree⟩, there⟩ :=
    ih left' like up₁ _ ⟨meets, same.afterParen_eq⟩
  obtain ⟨q', ⟨node', rest', agree'⟩, finish⟩ := ih' first.settles longer' agree up _ there
  have tighter : min < p'.token.precedence := by rwa [meets.precedence_eq]
  exact ⟨q', ⟨node', .longer tighter follows' first' rest', agree'⟩, finish⟩

theorem simulated_complete (stops : min < p.token.precedence → p.token.kind.following? = none) :
    Goal.Simulated limit s (.continuation left min) p left p := by
  intro settled left' like _ p' same
  exact ⟨p', ⟨left', .complete (same.stops settled stops), like⟩, same⟩

/-! ## Statements -/

theorem simulated_noStatement {terminator : TokenKind}
    (ends : p.skipLines.token.kind = terminator ∨ p.skipLines.token.kind = .eof) :
    Goal.Simulated limit s (.statements terminator) p [] p.skipLines := by
  intro plain within _ p' same
  have meets := same.skipLines within
  have inStep : InStep s p.skipLines p'.skipLines := by
    refine meets.inStep ?_
    rcases ends with ends | ends <;> rw [ends]
    · exact plain.1
    · rfl
  exact ⟨_, ⟨_, .noStatement (by rwa [inStep.kind_eq]), rfl⟩, inStep⟩

theorem simulated_statement {terminator : TokenKind} {nodes : List Node}
    (noEnd : p.skipLines.token.kind ≠ terminator) (noEof : p.skipLines.token.kind ≠ .eof)
    (first : Reads limit (.expression .lowest) p.skipLines node p₁)
    (ends : p₁.token.kind.EndsStatement)
    (rest : Reads limit (.statements terminator) p₁.skipLines nodes q)
    (ih : Goal.Simulated limit s (.expression .lowest) p.skipLines node p₁)
    (ih' : Goal.Simulated limit s (.statements terminator) p₁.skipLines nodes q) :
    Goal.Simulated limit s (.statements terminator) p (node :: nodes) q := by
  intro plain within up p' same
  have inside := within.of_reads rest
  have up₁ := inside.of_skipLines.upTo
  have lines := same.skipLines (first.within rfl up₁)
  obtain ⟨p₁', ⟨node', first', agree⟩, there⟩ := ih.1 up₁ _ lines.beside
  have inStep := there.inStep_of_endsStatement first.settles inside.of_skipLines ends
  obtain ⟨q', ⟨nodes', rest', agree'⟩, finish⟩ :=
    ih' plain within up _ (there.skipLines inside).beside
  exact ⟨q', ⟨_, .statement (by rwa [Ne, lines.kind_iff plain])
    (by rwa [Ne, lines.kind_iff (by decide)]) first' (by rwa [inStep.kind_eq]) rest',
    relocateAll_cons_eq agree agree'⟩, finish⟩

/-! ## Arguments -/

section

variable {arg : Node}

theorem simulated_lastBareArgument (first : Reads limit (.expression .lowest) p arg q)
    (last : q.token.kind ≠ .comma)
    (ih : Goal.Simulated limit s (.expression .lowest) p arg q) :
    Goal.Simulated limit s .bareArguments p [arg] q := by
  intro up p' same
  obtain ⟨q', ⟨arg', first', agree⟩, finish⟩ := ih.1 up _ same
  exact ⟨q', ⟨_, .lastBareArgument first' (by rwa [Ne, finish.comma_iff first.settles]),
    relocateAll_cons_eq agree rfl⟩, finish⟩

theorem simulated_bareArgument (first : Reads limit (.expression .lowest) p arg p₁)
    (comma : p₁.token.kind = .comma) (rest : Reads limit .bareArguments p₁.advance args q)
    (ih : Goal.Simulated limit s (.expression .lowest) p arg p₁)
    (ih' : Goal.Simulated limit s .bareArguments p₁.advance args q) :
    Goal.Simulated limit s .bareArguments p (arg :: args) q := by
  intro up p' same
  have within := (rest.upTo up).within (by simp [comma])
  obtain ⟨p₁', ⟨arg', first', agree⟩, there⟩ := ih.1 within.upTo _ same
  obtain ⟨comma', after⟩ := there.pass first.settles within comma (by decide)
  obtain ⟨q', ⟨args', rest', agree'⟩, finish⟩ := ih' up _ after.toBeside
  exact ⟨q', ⟨_, .bareArgument first' comma' rest', relocateAll_cons_eq agree agree'⟩, finish⟩

theorem simulated_lastArgument (closing : q.skipLines.token.kind = .rparen)
    (ih : Goal.Simulated limit s (.expression .lowest) p arg q) :
    Goal.Simulated limit s .arguments p [arg] q.skipLines.advance := by
  intro up p' same
  have within := up.within (by simp [closing])
  obtain ⟨q', ⟨arg', first', agree⟩, there⟩ := ih.1 within.of_skipLines.upTo _ same
  obtain ⟨closing', after⟩ := (there.skipLines within).pass closing (by decide)
  exact ⟨_, ⟨_, .lastArgument first' closing', relocateAll_cons_eq agree rfl⟩, after⟩

theorem simulated_argument (comma : p₁.skipLines.token.kind = .comma)
    (rest : Reads limit .arguments p₁.skipLines.advance args q)
    (ih : Goal.Simulated limit s (.expression .lowest) p arg p₁)
    (ih' : Goal.Simulated limit s .arguments p₁.skipLines.advance args q) :
    Goal.Simulated limit s .arguments p (arg :: args) q := by
  intro up p' same
  have within := (rest.upTo up).within (by simp [comma])
  obtain ⟨p₁', ⟨arg', first', agree⟩, there⟩ := ih.1 within.of_skipLines.upTo _ same
  obtain ⟨comma', after⟩ := (there.skipLines within).pass comma (by decide)
  obtain ⟨q', ⟨args', rest', agree'⟩, finish⟩ := ih' up _ after.toBeside
  exact ⟨q', ⟨_, .argument first' comma' rest', relocateAll_cons_eq agree agree'⟩, finish⟩

end

/-! ## Methods -/

/-- Behind its parameters the end of the line, the body and the `end` of a method are the same
in all of its forms. -/
theorem Beside.methodBody {p' : Parser} (same : Beside s p p') (settled : p.Settled)
    (ends : p.token.kind.EndsStatement)
    (inside : Reads limit (.statements .kwEnd) p.skipLines body q)
    (closing : q.token.kind = .kwEnd) (up : q.advance.UpTo s.tail)
    (ih : Goal.Simulated limit s (.statements .kwEnd) p.skipLines body q) :
    p'.token.kind.EndsStatement ∧ ∃ body' q',
      Reads limit (.statements .kwEnd) p'.skipLines body' q' ∧ q'.token.kind = .kwEnd ∧
        s.AllAgree body' body ∧ Abreast s q.advance q'.advance := by
  have within : q.Within s.tail := up.within (by simp [closing])
  have before : p.skipLines.Within s.tail := within.of_reads inside
  have inStep := same.inStep_of_endsStatement settled before.of_skipLines ends
  obtain ⟨q', ⟨body', inside', agree⟩, there⟩ :=
    ih (by decide) within within.upTo _ (same.skipLines before).beside
  obtain ⟨closing', after⟩ := there.pass closing (by decide)
  exact ⟨by rwa [inStep.kind_eq], body', q', inside', closing', agree, after⟩

/-- As far as a body is read, its method has not got beyond the tail in front of it. -/
theorem Reads.upTo_body (inside : Reads limit (.statements .kwEnd) p.skipLines body q)
    (closing : q.token.kind = .kwEnd) (up : q.advance.UpTo s.tail) : p.UpTo s.tail :=
  ((up.within (by simp [closing])).of_reads inside).of_skipLines.upTo

theorem simulated_methodAlone (ends : p.token.kind.EndsStatement)
    (inside : Reads limit (.statements .kwEnd) (p.withScope .empty).skipLines body q)
    (closing : q.token.kind = .kwEnd)
    (ih : Goal.Simulated limit s (.statements .kwEnd) (p.withScope .empty).skipLines body q) :
    Goal.Simulated limit s .method p ([], body) (q.advance.withScope p.scope) := by
  intro settled _ up p' same
  obtain ⟨ends', body', q', inside', closing', agree, after⟩ :=
    (same.withScope .empty).methodBody settled ends inside closing up ih
  refine ⟨_, ⟨_, _, .methodAlone ends' inside' closing', rfl, agree⟩, ?_⟩
  rw [same.scope_eq]
  exact after.withScope p.scope

theorem simulated_methodNone (opening : p.token.kind = .lparen)
    (empty : p.advance.skipLines.token.kind = .rparen)
    (ends : p.advance.skipLines.advance.token.kind.EndsStatement)
    (inside : Reads limit (.statements .kwEnd)
      (p.withScope .empty).advance.skipLines.advance.skipLines body q)
    (closing : q.token.kind = .kwEnd)
    (ih : Goal.Simulated limit s (.statements .kwEnd)
      (p.withScope .empty).advance.skipLines.advance.skipLines body q) :
    Goal.Simulated limit s .method p ([], body) (q.advance.withScope p.scope) := by
  intro settled _ up p' same
  have parens : p.advance.skipLines.Within s.tail :=
    (inside.upTo_body closing up).within (p := p.advance.skipLines) (by simp [empty])
  have here := parens.of_skipLines.upTo.within (by simp [opening])
  obtain ⟨opening', behind⟩ := same.pass settled here opening (by decide)
  obtain ⟨empty', between⟩ := (behind.skipLines parens).pass empty (by decide)
  obtain ⟨ends', body', q', inside', closing', agree, after⟩ :=
    (between.toBeside.withScope .empty).methodBody (.advance empty rfl) ends inside closing up ih
  refine ⟨_, ⟨_, _, .methodNone opening' empty' ends' inside' closing', rfl, agree⟩, ?_⟩
  rw [same.scope_eq]
  exact after.withScope p.scope

theorem simulated_methodList (opening : p.token.kind = .lparen)
    (more : p.advance.skipLines.token.kind ≠ .rparen)
    (list : Reads limit .parameters (p.withScope .empty).advance.skipLines params p₁)
    (ends : p₁.token.kind.EndsStatement)
    (inside : Reads limit (.statements .kwEnd) p₁.skipLines body q)
    (closing : q.token.kind = .kwEnd)
    (ih : Goal.Simulated limit s .parameters (p.withScope .empty).advance.skipLines params p₁)
    (ih' : Goal.Simulated limit s (.statements .kwEnd) p₁.skipLines body q) :
    Goal.Simulated limit s .method p (params, body) (q.advance.withScope p.scope) := by
  intro settled _ up p' same
  have up₁ : p₁.UpTo s.tail := inside.upTo_body closing up
  have first : p.advance.skipLines.Within s.tail := list.within rfl up₁
  have here := first.of_skipLines.upTo.within (by simp [opening])
  obtain ⟨opening', behind⟩ := same.pass settled here opening (by decide)
  have lines := (behind.withScope .empty).skipLines first
  have noSign := congrArg TokenKind.sign? list.parameters_named
  obtain ⟨p₁', ⟨params', list', agree⟩, between⟩ := ih up₁ _ (lines.inStep noSign)
  obtain ⟨ends', body', q', inside', closing', agree', after⟩ :=
    between.toBeside.methodBody list.settles ends inside closing up ih'
  refine ⟨_, ⟨_, _, .methodList opening'
    (by rwa [Ne, (behind.skipLines first).kind_iff (by decide)]) list' ends' inside' closing',
    agree, agree'⟩, ?_⟩
  rw [same.scope_eq]
  exact after.withScope p.scope

theorem simulated_methodBare (noParen : p.token.kind ≠ .lparen)
    (noEnd : ¬ p.token.kind.EndsStatement)
    (list : Reads limit .bareParameters (p.withScope .empty) params p₁)
    (ends : p₁.token.kind.EndsStatement)
    (inside : Reads limit (.statements .kwEnd) p₁.skipLines body q)
    (closing : q.token.kind = .kwEnd)
    (ih : Goal.Simulated limit s .bareParameters (p.withScope .empty) params p₁)
    (ih' : Goal.Simulated limit s (.statements .kwEnd) p₁.skipLines body q) :
    Goal.Simulated limit s .method p (params, body) (q.advance.withScope p.scope) := by
  intro settled owes up p' same
  have up₁ : p₁.UpTo s.tail := inside.upTo_body closing up
  have here := same.inStep_of_owesParameter owes (list.within rfl up₁) list.bareParameters_named
  obtain ⟨p₁', ⟨params', list', agree⟩, between⟩ := ih owes up₁ _ (same.withScope .empty)
  obtain ⟨ends', body', q', inside', closing', agree', after⟩ :=
    between.toBeside.methodBody list.settles ends inside closing up ih'
  refine ⟨_, ⟨_, _, .methodBare (by rwa [here.kind_eq]) (by rwa [here.kind_eq]) list' ends'
    inside' closing', agree, agree'⟩, ?_⟩
  rw [same.scope_eq]
  exact after.withScope p.scope

/-! ## Parameters -/

section

variable {param : Node}

theorem simulated_parameter (named : p.token.kind = .identifier)
    (unknown : p.token.literal ∉ p.scope) :
    Goal.Simulated limit s .parameter p (.identifier ⟨p.token, true⟩ p.token.position)
      (p.declare p.token.literal).advance := by
  intro _ p' inStep
  obtain ⟨place, here, token, after⟩ := inStep.take named (by decide)
  refine ⟨_, ⟨_, .parameter (by rw [token]; exact named)
    (by rw [token, inStep.scope_eq]; exact unknown), ?_⟩, ?_⟩
  · rw [token]
    exact relocate_identifier_eq (Identifier.relocate_eq ⟨p.token, true⟩ here) here
  · rw [token]
    exact after.declare p.token.literal

theorem simulated_lastParameter (closing : q.skipLines.token.kind = .rparen)
    (ih : Goal.Simulated limit s .parameter p param q) :
    Goal.Simulated limit s .parameters p [param] q.skipLines.advance := by
  intro up p' inStep
  have within := up.within (by simp [closing])
  obtain ⟨q', ⟨param', first', agree⟩, there⟩ := ih within.of_skipLines.upTo _ inStep
  obtain ⟨closing', after⟩ := (there.skipLines within).pass closing (by decide)
  exact ⟨_, ⟨_, .lastParameter first' closing', relocateAll_cons_eq agree rfl⟩, after⟩

theorem simulated_furtherParameter (comma : p₁.skipLines.token.kind = .comma)
    (rest : Reads limit .parameters p₁.skipLines.advance.skipLines params q)
    (ih : Goal.Simulated limit s .parameter p param p₁)
    (ih' : Goal.Simulated limit s .parameters p₁.skipLines.advance.skipLines params q) :
    Goal.Simulated limit s .parameters p (param :: params) q := by
  intro up p' inStep
  have next := rest.within rfl up
  have within := next.of_skipLines.upTo.within (by simp [comma])
  obtain ⟨p₁', ⟨param', first', agree⟩, there⟩ := ih within.of_skipLines.upTo _ inStep
  obtain ⟨comma', after⟩ := (there.skipLines within).pass comma (by decide)
  have noSign := congrArg TokenKind.sign? rest.parameters_named
  obtain ⟨q', ⟨params', rest', agree'⟩, finish⟩ := ih' up _ ((after.skipLines next).inStep noSign)
  exact ⟨q', ⟨_, .furtherParameter first' comma' rest', relocateAll_cons_eq agree agree'⟩, finish⟩

theorem simulated_lastBareParameter (first : Reads limit .parameter p param q)
    (last : q.token.kind ≠ .comma) (ih : Goal.Simulated limit s .parameter p param q) :
    Goal.Simulated limit s .bareParameters p [param] q := by
  intro owes up p' same
  obtain ⟨named, -⟩ := first.parameter_named
  obtain ⟨q', ⟨param', first', agree⟩, finish⟩ :=
    ih up _ (same.inStep_of_owesParameter owes (first.within rfl up) named)
  exact ⟨q', ⟨_, .lastBareParameter first' (by rwa [Ne, finish.comma_iff first.settles]),
    relocateAll_cons_eq agree rfl⟩, finish⟩

theorem simulated_bareParameter (first : Reads limit .parameter p param p₁)
    (comma : p₁.token.kind = .comma) (rest : Reads limit .bareParameters p₁.advance params q)
    (ih : Goal.Simulated limit s .parameter p param p₁)
    (ih' : Goal.Simulated limit s .bareParameters p₁.advance params q) :
    Goal.Simulated limit s .bareParameters p (param :: params) q := by
  intro owes up p' same
  obtain ⟨named, passed⟩ := first.parameter_named
  have within := (rest.upTo up).within (by simp [comma])
  obtain ⟨p₁', ⟨param', first', agree⟩, there⟩ :=
    ih within.upTo _ (same.inStep_of_owesParameter owes (first.within rfl within.upTo) named)
  obtain ⟨comma', after⟩ := there.pass first.settles within comma (by decide)
  have owes' : OwesParameter p₁.advance.cursor.before := by
    rw [Parser.before_advance (by simp [comma]), passed]
    exact .further owes named comma
  obtain ⟨q', ⟨params', rest', agree'⟩, finish⟩ := ih' owes' up _ after.toBeside
  exact ⟨q', ⟨_, .bareParameter first' comma' rest', relocateAll_cons_eq agree agree'⟩, finish⟩

end

end

/-! ## Every phrase -/

theorem Reads.simulated {limit : Option Nat} {s : Respelling} {goal : Goal} {p q : Parser}
    {a : goal.Result} (h : Reads limit goal p a q) : goal.Simulated limit s p a q := by
  induction h with
  | trueLiteral kind =>
      exact simulated_leaf (by simp [kind]) (fun _ _ => rfl) fun _ ⟨_, token⟩ =>
        .trueLiteral (by rw [token]; exact kind)
  | falseLiteral kind =>
      exact simulated_leaf (by simp [kind]) (fun _ _ => rfl) fun _ ⟨_, token⟩ =>
        .falseLiteral (by rw [token]; exact kind)
  | nilLiteral kind =>
      exact simulated_leaf (by simp [kind]) (fun _ _ => rfl) fun _ ⟨_, token⟩ =>
        .nilLiteral (by rw [token]; exact kind)
  | number written =>
      exact simulated_leaf (Token.ne_eof_of_numeral written) (fun _ _ => rfl) fun _ ⟨_, token⟩ =>
        .number (by rw [token]; exact written)
  | string kind =>
      refine simulated_leaf (by simp [kind]) (fun _ _ => rfl) fun p' ⟨_, token⟩ => ?_
      have reads : Reads limit (.leading .string) p' _ _ := .string (by rw [token]; exact kind)
      rwa [token] at reads ⊢
  | symbol kind => exact simulated_symbol kind
  | name named known => exact simulated_name named known
  | selfCall named unknown noTarget noArgument =>
      exact simulated_selfCall named unknown noTarget noArgument
  | selfCallWith named unknown noTarget begins _ ih =>
      exact simulated_selfCallWith named unknown noTarget begins ih
  | emptyGroup opening closing => exact simulated_emptyGroup opening closing
  | group opening more inner closing ih => exact simulated_group opening more inner closing ih
  | definition opening named method ih => exact simulated_definition opening named method ih
  | assignment assign _ ih => exact simulated_assignment assign ih
  | emptyCall notAfter opening closing => exact simulated_emptyCall notAfter opening closing
  | call notAfter opening more list ih => exact simulated_call notAfter opening more list ih
  | emptyCallAgain notAfter opening closing =>
      exact simulated_emptyCallAgain notAfter opening closing
  | callAgain notAfter opening more list ih =>
      exact simulated_callAgain notAfter opening more list ih
  | operator known _ ih => exact simulated_operator known ih
  | signedNumber isSigned written _ ih => exact simulated_signedNumber isSigned written ih
  | send dot named noArgument => exact simulated_send dot named noArgument
  | sendWith dot named begins list ih => exact simulated_sendWith dot named begins list ih
  | ternary question _ colon second ih ih' => exact simulated_ternary question colon second ih ih'
  | expression room leads first rest ih ih' =>
      exact simulated_expression room leads first rest ih ih'
  | longer lt follows first rest ih ih' => exact simulated_longer lt follows first rest ih ih'
  | complete stops => exact simulated_complete stops
  | noStatement ends => exact simulated_noStatement ends
  | statement noEnd noEof first ends rest ih ih' =>
      exact simulated_statement noEnd noEof first ends rest ih ih'
  | lastBareArgument first last ih => exact simulated_lastBareArgument first last ih
  | bareArgument first comma rest ih ih' => exact simulated_bareArgument first comma rest ih ih'
  | lastArgument _ closing ih => exact simulated_lastArgument closing ih
  | argument _ comma rest ih ih' => exact simulated_argument comma rest ih ih'
  | methodAlone ends inside closing ih => exact simulated_methodAlone ends inside closing ih
  | methodNone opening empty ends inside closing ih =>
      exact simulated_methodNone opening empty ends inside closing ih
  | methodList opening more list ends inside closing ih ih' =>
      exact simulated_methodList opening more list ends inside closing ih ih'
  | methodBare noParen noEnd list ends inside closing ih ih' =>
      exact simulated_methodBare noParen noEnd list ends inside closing ih ih'
  | parameter named unknown => exact simulated_parameter named unknown
  | lastParameter _ closing ih => exact simulated_lastParameter closing ih
  | furtherParameter _ comma rest ih ih' => exact simulated_furtherParameter comma rest ih ih'
  | lastBareParameter first last ih => exact simulated_lastBareParameter first last ih
  | bareParameter first comma rest ih ih' =>
      exact simulated_bareParameter first comma rest ih ih'

end RubyReader
