/-
# `Reads` — successful reading, as derivations

`Reads limit goal p a q`: from `p` the phrase `goal` is read as `a`, and `q`
is the parser afterwards.  There is one rule for each way through a routine
that ends well; a derivation is the tree of the phrases that were read inside
each other, with the tokens that decided which way was taken.

So what is true of every successful reading is proved by induction on its
derivation, and that a phrase can be read is proved by building one.
-/
import RubyReader.Proofs.Names
import RubyReader.Proofs.Reading.Returns

namespace RubyReader

open Grammar (splitFirst)

/-- From `p` the phrase `goal` is read as `a`, with at most `limit` expressions
open at once; `q` is the parser afterwards. -/
inductive Reads (limit : Option Nat) : (goal : Goal) → Parser → goal.Result → Parser → Prop
  -- leading forms
  | trueLiteral {p : Parser} : p.token.kind = .kwTrue →
      Reads limit (.leading .boolean) p (.trueLiteral p.token.position) p.advance
  | falseLiteral {p : Parser} : p.token.kind = .kwFalse →
      Reads limit (.leading .boolean) p (.falseLiteral p.token.position) p.advance
  | nilLiteral {p : Parser} : p.token.kind = .kwNil →
      Reads limit (.leading .nil) p (.nilLiteral p.token.position) p.advance
  | number {p : Parser} {value : Value} :
      p.token.numeral? p.token.literal = some value →
      Reads limit (.leading .number) p (.literal value p.token.position) p.advance
  | symbol {p : Parser} : p.token.kind = .symbol →
      Reads limit (.leading .symbol) p (.symbol (.sym ⟨p.token.literal⟩) p.token.position)
        (p.advance.intern p.token.literal)
  | string {p : Parser} : p.token.kind = .string →
      Reads limit (.leading .string) p (.string (.str p.token.literal) p.token.position) p.advance
  | name {p : Parser} : p.token.kind = .identifier →
      p.token.literal ∈ p.scope ∨ p.advance.token.kind = .assign →
      Reads limit (.leading .name) p
        (.identifier ⟨p.token, p.scope.contains p.token.literal⟩ p.token.position) p.advance
  | selfCall {p : Parser} : p.token.kind = .identifier →
      p.token.literal ∉ p.scope → p.advance.token.kind ≠ .assign →
      p.advance.token.beginsBareArgument = false →
      Reads limit (.leading .name) p
        (.call (.implicitSelf p.token.position) ⟨p.token.literal⟩ [] p.token.position)
        (p.advance.intern p.token.literal)
  | selfCallWith {p q : Parser} {args : List Node} : p.token.kind = .identifier →
      p.token.literal ∉ p.scope → p.advance.token.kind ≠ .assign →
      p.advance.token.beginsBareArgument = true →
      Reads limit .bareArguments (p.advance.intern p.token.literal) args q →
      Reads limit (.leading .name) p
        (.call (.implicitSelf p.token.position) ⟨p.token.literal⟩ args p.token.position) q
  | emptyGroup {p : Parser} : p.token.kind = .lparen →
      p.advance.skipLines.token.kind = .rparen →
      Reads limit (.leading .group) p (.nilLiteral p.token.position) p.advance.skipLines.advance
  | group {p q : Parser} {node : Node} : p.token.kind = .lparen →
      p.advance.skipLines.token.kind ≠ .rparen →
      Reads limit (.expression .lowest) p.advance.skipLines node q →
      q.skipLines.token.kind = .rparen →
      Reads limit (.leading .group) p node q.skipLines.advance
  | definition {p q : Parser} {params body : List Node} : p.token.kind = .kwDef →
      p.advance.token.kind = .identifier →
      Reads limit .method p.advance.advance (params, body) q →
      Reads limit (.leading .definition) p
        (.definition ⟨p.advance.token, false⟩ params body p.token.position) q
  -- following forms
  | assignment {p q : Parser} {target : Identifier} {position : Position} {value : Node} :
      p.token.kind = .assign →
      Reads limit (.expression .lowest) (p.advance.declare target.name) value q →
      Reads limit (.following .assignment (.identifier target position)) p
        (.assignment target value p.token.position) q
  | emptyCall {p : Parser} {callee : Identifier} {position : Position} :
      p.afterParen = false → p.token.kind = .lparen →
      p.advance.skipLines.token.kind = .rparen →
      Reads limit (.following .call (.identifier callee position)) p
        (.call (.implicitSelf position) ⟨callee.name⟩ [] position)
        ((p.intern callee.name).advance.skipLines.advance)
  | call {p q : Parser} {callee : Identifier} {position : Position} {args : List Node} :
      p.afterParen = false → p.token.kind = .lparen →
      p.advance.skipLines.token.kind ≠ .rparen →
      Reads limit .arguments ((p.intern callee.name).advance.skipLines) args q →
      Reads limit (.following .call (.identifier callee position)) p
        (.call (.implicitSelf position) ⟨callee.name⟩ args position) q
  | emptyCallAgain {p : Parser} {receiver : Node} {message : Symbol} {position : Position} :
      p.afterParen = false → p.token.kind = .lparen →
      p.advance.skipLines.token.kind = .rparen →
      Reads limit (.following .call (.call receiver message [] position)) p
        (.call receiver message [] position) p.advance.skipLines.advance
  | callAgain {p q : Parser} {receiver : Node} {message : Symbol} {position : Position}
      {args : List Node} :
      p.afterParen = false → p.token.kind = .lparen →
      p.advance.skipLines.token.kind ≠ .rparen →
      Reads limit .arguments p.advance.skipLines args q →
      Reads limit (.following .call (.call receiver message [] position)) p
        (.call receiver message args position) q
  | operator {p q : Parser} {left right : Node} {name : String} :
      p.token.kind.operator? = some name →
      Reads limit (.expression p.token.precedence) (p.advance.intern name) right q →
      Reads limit (.following .operator left) p (.call left ⟨name⟩ [right] p.token.position) q
  | signedNumber {p q : Parser} {left right : Node} {value : Value} :
      p.token.signed = true →
      p.token.numeral? (splitFirst p.token.literal).2 = some value →
      Reads limit (.continuation (.literal value p.token.position) .sum)
        (p.advance.intern (splitFirst p.token.literal).1) right q →
      Reads limit (.following .signedNumber left) p
        (.call left ⟨(splitFirst p.token.literal).1⟩ [right] p.token.position) q
  | send {p : Parser} {left : Node} : p.token.kind = .dot →
      p.advance.token.kind = .identifier →
      p.advance.advance.token.beginsBareArgument = false →
      Reads limit (.following .send left) p
        (.call left ⟨p.advance.token.literal⟩ [] p.token.position)
        (p.advance.advance.intern p.advance.token.literal)
  | sendWith {p q : Parser} {left : Node} {args : List Node} : p.token.kind = .dot →
      p.advance.token.kind = .identifier →
      p.advance.advance.token.beginsBareArgument = true →
      Reads limit .bareArguments (p.advance.advance.intern p.advance.token.literal) args q →
      Reads limit (.following .send left) p
        (.call left ⟨p.advance.token.literal⟩ args p.token.position) q
  | ternary {p p₁ q : Parser} {left ifTrue ifFalse : Node} : p.token.kind = .question →
      Reads limit (.expression .lowest) p.advance ifTrue p₁ →
      p₁.skipLines.token.kind = .colon →
      Reads limit (.expression .lowest) p₁.skipLines.advance ifFalse q →
      Reads limit (.following .ternary left) p
        (.conditional left ifTrue ifFalse p.token.position) q
  -- expressions and statements
  | expression {min : Precedence} {form : LeadingForm} {p p₁ q : Parser} {left node : Node} :
      p.isFull limit = false →
      p.skipLines.token.kind.leading? = some form →
      Reads limit (.leading form) p.opened.skipLines left p₁ →
      Reads limit (.continuation left min) p₁ node q →
      Reads limit (.expression min) p node q.closed
  | longer {min : Precedence} {form : FollowingForm} {p p₁ q : Parser}
      {left longer node : Node} :
      min < p.token.precedence → p.token.kind.following? = some form →
      Reads limit (.following form left) p longer p₁ →
      Reads limit (.continuation longer min) p₁ node q →
      Reads limit (.continuation left min) p node q
  | complete {min : Precedence} {p : Parser} {left : Node} :
      (min < p.token.precedence → p.token.kind.following? = none) →
      Reads limit (.continuation left min) p left p
  | noStatement {terminator : TokenKind} {p : Parser} :
      p.skipLines.token.kind = terminator ∨ p.skipLines.token.kind = .eof →
      Reads limit (.statements terminator) p [] p.skipLines
  | statement {terminator : TokenKind} {p p₁ q : Parser} {node : Node} {nodes : List Node} :
      p.skipLines.token.kind ≠ terminator → p.skipLines.token.kind ≠ .eof →
      Reads limit (.expression .lowest) p.skipLines node p₁ →
      p₁.token.kind.EndsStatement →
      Reads limit (.statements terminator) p₁.skipLines nodes q →
      Reads limit (.statements terminator) p (node :: nodes) q
  -- arguments
  | lastBareArgument {p q : Parser} {arg : Node} :
      Reads limit (.expression .lowest) p arg q → q.token.kind ≠ .comma →
      Reads limit .bareArguments p [arg] q
  | bareArgument {p p₁ q : Parser} {arg : Node} {args : List Node} :
      Reads limit (.expression .lowest) p arg p₁ → p₁.token.kind = .comma →
      Reads limit .bareArguments p₁.advance args q →
      Reads limit .bareArguments p (arg :: args) q
  | lastArgument {p q : Parser} {arg : Node} :
      Reads limit (.expression .lowest) p arg q → q.skipLines.token.kind = .rparen →
      Reads limit .arguments p [arg] q.skipLines.advance
  | argument {p p₁ q : Parser} {arg : Node} {args : List Node} :
      Reads limit (.expression .lowest) p arg p₁ → p₁.skipLines.token.kind = .comma →
      Reads limit .arguments p₁.skipLines.advance args q →
      Reads limit .arguments p (arg :: args) q
  -- methods
  | methodAlone {p q : Parser} {body : List Node} : p.token.kind.EndsStatement →
      Reads limit (.statements .kwEnd) (p.withScope .empty).skipLines body q →
      q.token.kind = .kwEnd →
      Reads limit .method p ([], body) (q.advance.withScope p.scope)
  | methodNone {p q : Parser} {body : List Node} : p.token.kind = .lparen →
      p.advance.skipLines.token.kind = .rparen →
      p.advance.skipLines.advance.token.kind.EndsStatement →
      Reads limit (.statements .kwEnd)
        (p.withScope .empty).advance.skipLines.advance.skipLines body q →
      q.token.kind = .kwEnd →
      Reads limit .method p ([], body) (q.advance.withScope p.scope)
  | methodList {p p₁ q : Parser} {params body : List Node} : p.token.kind = .lparen →
      p.advance.skipLines.token.kind ≠ .rparen →
      Reads limit .parameters (p.withScope .empty).advance.skipLines params p₁ →
      p₁.token.kind.EndsStatement →
      Reads limit (.statements .kwEnd) p₁.skipLines body q → q.token.kind = .kwEnd →
      Reads limit .method p (params, body) (q.advance.withScope p.scope)
  | methodBare {p p₁ q : Parser} {params body : List Node} :
      p.token.kind ≠ .lparen → ¬ p.token.kind.EndsStatement →
      Reads limit .bareParameters (p.withScope .empty) params p₁ →
      p₁.token.kind.EndsStatement →
      Reads limit (.statements .kwEnd) p₁.skipLines body q → q.token.kind = .kwEnd →
      Reads limit .method p (params, body) (q.advance.withScope p.scope)
  | parameter {p : Parser} : p.token.kind = .identifier → p.token.literal ∉ p.scope →
      Reads limit .parameter p (.identifier ⟨p.token, true⟩ p.token.position)
        (p.declare p.token.literal).advance
  | lastParameter {p q : Parser} {param : Node} :
      Reads limit .parameter p param q → q.skipLines.token.kind = .rparen →
      Reads limit .parameters p [param] q.skipLines.advance
  | furtherParameter {p p₁ q : Parser} {param : Node} {params : List Node} :
      Reads limit .parameter p param p₁ → p₁.skipLines.token.kind = .comma →
      Reads limit .parameters p₁.skipLines.advance.skipLines params q →
      Reads limit .parameters p (param :: params) q
  | lastBareParameter {p q : Parser} {param : Node} :
      Reads limit .parameter p param q → q.token.kind ≠ .comma →
      Reads limit .bareParameters p [param] q
  | bareParameter {p p₁ q : Parser} {param : Node} {params : List Node} :
      Reads limit .parameter p param p₁ → p₁.token.kind = .comma →
      Reads limit .bareParameters p₁.advance params q →
      Reads limit .bareParameters p (param :: params) q

end RubyReader
