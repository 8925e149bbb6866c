/-
# `Phrase` — the expressions, as derivations of a stratified grammar

    E → name = E | C
    C → Q | Q ? E : E
    Q → Q == R | R
    R → R < S | R <= S | R > S | R >= S | S
    S → S + P | S - P | S P' | P
    P → P * D | P / D | D
    D → D . name | D . name ( L | A
    A → number | string | symbol | true | false | nil | name | name ( L | ( E ) | ( )
    L → ) | E , … , E )

`P'` is a `P` that begins with a signed number, whose sign is the operator
between the two operands.  A derivation knows the tokens that it derives and
the tree that these write in a given scope.  How tightly the reader's loop binds
is not mentioned here.
-/
import RubyReader.Proofs.Reading.Returns

namespace RubyReader

/-! ## The symbols of the grammar

A terminal is a token together with its kind.  A signed number is one terminal, or two where
its sign is taken as an operator: `sign` and `digits`. -/

/-- The levels `E C Q R S P D A` of the grammar, from the loosest to the tightest. -/
inductive Level where
  | expression
  | conditional
  | equality
  | ordering
  | sum
  | product
  | send
  | atom
deriving DecidableEq

/-- The level of the operands, where there is a tighter one. -/
def Level.next : Level → Level
  | expression => conditional
  | conditional => equality
  | equality => ordering
  | ordering => sum
  | sum => product
  | product => send
  | send | atom => atom

/-- The nonterminals: the levels, what stands between the parentheses of an
argument list, and lists of at least one argument with the closing parenthesis. -/
inductive Category where
  | level (level : Level)
  | parens
  | list
deriving DecidableEq

/-- What a phrase writes. -/
abbrev Category.Result : Category → Type
  | level _ => Node
  | parens | list => List Node

/-- The operators of the levels `Q R S P`. -/
inductive Operator where
  | equal
  | less
  | lessEqual
  | greater
  | greaterEqual
  | plus
  | minus
  | times
  | divide

namespace Operator

def level : Operator → Level
  | equal => .equality
  | less | lessEqual | greater | greaterEqual => .ordering
  | plus | minus => .sum
  | times | divide => .product

def kind : Operator → TokenKind
  | equal => .equal
  | less => .less
  | lessEqual => .lessEqual
  | greater => .greater
  | greaterEqual => .greaterEqual
  | plus => .plus
  | minus => .minus
  | times => .times
  | divide => .divide

def message : Operator → Symbol
  | equal => ⟨"=="⟩
  | less => ⟨"<"⟩
  | lessEqual => ⟨"<="⟩
  | greater => ⟨">"⟩
  | greaterEqual => ⟨">="⟩
  | plus => ⟨"+"⟩
  | minus => ⟨"-"⟩
  | times => ⟨"*"⟩
  | divide => ⟨"/"⟩

end Operator

abbrev Terminal (kind : TokenKind) : Type := { token : Token // token.kind = kind }

namespace Token

def sign (token : Token) : String := String.ofList (token.literal.toList.take 1)

def digits (token : Token) : String := String.ofList (token.literal.toList.drop 1)

end Token

/-! ## Derivations -/

/-- The derivations of a nonterminal.  The flag says that the first token is a
signed number of which the sign is an operator in front of the phrase, so that
only its digits belong to the phrase. -/
inductive Phrase : Category → Bool → Type
  | assignment (target : Terminal .identifier) (assign : Terminal .assign)
      (value : Phrase (.level .expression) false) : Phrase (.level .expression) false
  | conditional (condition : Phrase (.level .equality) false) (question : Terminal .question)
      (ifTrue : Phrase (.level .expression) false) (colon : Terminal .colon)
      (ifFalse : Phrase (.level .expression) false) : Phrase (.level .conditional) false
  | operation {split : Bool} (operator : Operator) (left : Phrase (.level operator.level) split)
      (token : Terminal operator.kind) (right : Phrase (.level operator.level.next) false) :
      Phrase (.level operator.level) split
  | signed {split : Bool} (left : Phrase (.level .sum) split)
      (right : Phrase (.level .product) true) : Phrase (.level .sum) split
  | send {split : Bool} (receiver : Phrase (.level .send) split) (dot : Terminal .dot)
      (message : Terminal .identifier) : Phrase (.level .send) split
  | sendCall {split : Bool} (receiver : Phrase (.level .send) split) (dot : Terminal .dot)
      (message : Terminal .identifier) (args : Phrase .parens false) : Phrase (.level .send) split
  | tighter {level : Level} {split : Bool} (isLoose : level ≠ .atom)
      (inner : Phrase (.level level.next) split) : Phrase (.level level) split
  | number (token : Token) (value : Value) (inRange : token.numeral? token.literal = some value) :
      Phrase (.level .atom) false
  | digits (token : Token) (value : Value) (isSigned : token.signed = true)
      (inRange : token.numeral? token.digits = some value) : Phrase (.level .atom) true
  | string (token : Terminal .string) : Phrase (.level .atom) false
  | symbol (token : Terminal .symbol) : Phrase (.level .atom) false
  | trueLiteral (token : Terminal .kwTrue) : Phrase (.level .atom) false
  | falseLiteral (token : Terminal .kwFalse) : Phrase (.level .atom) false
  | nilLiteral (token : Terminal .kwNil) : Phrase (.level .atom) false
  | name (token : Terminal .identifier) : Phrase (.level .atom) false
  | call (callee : Terminal .identifier) (args : Phrase .parens false) : Phrase (.level .atom) false
  | group (opening : Terminal .lparen) (inner : Phrase (.level .expression) false)
      (closing : Terminal .rparen) : Phrase (.level .atom) false
  | emptyGroup (opening : Terminal .lparen) (closing : Terminal .rparen) :
      Phrase (.level .atom) false
  | noArguments (opening : Terminal .lparen) (closing : Terminal .rparen) : Phrase .parens false
  | arguments (opening : Terminal .lparen) (list : Phrase .list false) : Phrase .parens false
  | lastArgument (arg : Phrase (.level .expression) false) (closing : Terminal .rparen) :
      Phrase .list false
  | argument (arg : Phrase (.level .expression) false) (comma : Terminal .comma)
      (rest : Phrase .list false) : Phrase .list false

namespace Phrase

def tokens : {category : Category} → {split : Bool} → Phrase category split → List Token
  | _, _, assignment target assign value => target.1 :: assign.1 :: value.tokens
  | _, _, conditional condition question ifTrue colon ifFalse =>
    condition.tokens ++ question.1 :: (ifTrue.tokens ++ colon.1 :: ifFalse.tokens)
  | _, _, operation _ left token right => left.tokens ++ token.1 :: right.tokens
  | _, _, signed left right => left.tokens ++ right.tokens
  | _, _, send receiver dot message => receiver.tokens ++ [dot.1, message.1]
  | _, _, sendCall receiver dot message args => receiver.tokens ++ dot.1 :: message.1 :: args.tokens
  | _, _, tighter _ inner => inner.tokens
  | _, _, number token _ _ | _, _, digits token _ _ _ => [token]
  | _, _, string token => [token.1]
  | _, _, symbol token => [token.1]
  | _, _, trueLiteral token => [token.1]
  | _, _, falseLiteral token => [token.1]
  | _, _, nilLiteral token => [token.1]
  | _, _, name token => [token.1]
  | _, _, call callee args => callee.1 :: args.tokens
  | _, _, group opening inner closing => opening.1 :: (inner.tokens ++ [closing.1])
  | _, _, emptyGroup opening closing | _, _, noArguments opening closing =>
    [opening.1, closing.1]
  | _, _, arguments opening list => opening.1 :: list.tokens
  | _, _, lastArgument arg closing => arg.tokens ++ [closing.1]
  | _, _, argument arg comma rest => arg.tokens ++ comma.1 :: rest.tokens

def first : {category : Category} → {split : Bool} → Phrase category split → Token
  | _, _, assignment target _ _ => target.1
  | _, _, conditional condition _ _ _ _ => condition.first
  | _, _, operation _ left _ _ => left.first
  | _, _, signed left _ => left.first
  | _, _, send receiver _ _ => receiver.first
  | _, _, sendCall receiver _ _ _ => receiver.first
  | _, _, tighter _ inner => inner.first
  | _, _, number token _ _ | _, _, digits token _ _ _ => token
  | _, _, string token => token.1
  | _, _, symbol token => token.1
  | _, _, trueLiteral token => token.1
  | _, _, falseLiteral token => token.1
  | _, _, nilLiteral token => token.1
  | _, _, name token => token.1
  | _, _, call callee _ => callee.1
  | _, _, group opening _ _ | _, _, emptyGroup opening _ | _, _, noArguments opening _
  | _, _, arguments opening _ => opening.1
  | _, _, lastArgument arg _ => arg.first
  | _, _, argument arg _ _ => arg.first

/-- The tree that a phrase writes in a scope, and the scope behind it.  A name
is a variable if it is in scope where it stands, and a call without arguments
otherwise; the target of an assignment is in scope from there on. -/
def tree : {category : Category} → {split : Bool} → Phrase category split → Names →
    category.Result × Names
  | _, _, assignment target assign value, scope =>
    let (value, after) := value.tree (scope.insert target.1.literal)
    (.assignment ⟨target.1, scope.contains target.1.literal⟩ value assign.1.position, after)
  | _, _, conditional condition question ifTrue _ ifFalse, scope =>
    let (condition, scope) := condition.tree scope
    let (ifTrue, scope) := ifTrue.tree scope
    let (ifFalse, scope) := ifFalse.tree scope
    (.conditional condition ifTrue ifFalse question.1.position, scope)
  | _, _, operation operator left token right, scope =>
    let (left, scope) := left.tree scope
    let (right, scope) := right.tree scope
    (.call left operator.message [right] token.1.position, scope)
  | _, _, signed left right, scope =>
    let number := right.first
    let (left, scope) := left.tree scope
    let (right, scope) := right.tree scope
    (.call left ⟨number.sign⟩ [right] number.position, scope)
  | _, _, send receiver dot message, scope =>
    let (receiver, scope) := receiver.tree scope
    (.call receiver ⟨message.1.literal⟩ [] dot.1.position, scope)
  | _, _, sendCall receiver dot message args, scope =>
    let (receiver, scope) := receiver.tree scope
    let (args, scope) := args.tree scope
    (.call receiver ⟨message.1.literal⟩ args dot.1.position, scope)
  | _, _, tighter _ inner, scope => inner.tree scope
  | _, _, number token value _, scope | _, _, digits token value _ _, scope =>
    (.literal value token.position, scope)
  | _, _, string token, scope => (.string (.str token.1.literal) token.1.position, scope)
  | _, _, symbol token, scope => (.symbol (.sym ⟨token.1.literal⟩) token.1.position, scope)
  | _, _, trueLiteral token, scope => (.trueLiteral token.1.position, scope)
  | _, _, falseLiteral token, scope => (.falseLiteral token.1.position, scope)
  | _, _, nilLiteral token, scope => (.nilLiteral token.1.position, scope)
  | _, _, name token, scope =>
    (if scope.contains token.1.literal then .identifier ⟨token.1, true⟩ token.1.position
      else .call (.implicitSelf token.1.position) ⟨token.1.literal⟩ [] token.1.position, scope)
  | _, _, call callee args, scope =>
    let (args, scope) := args.tree scope
    (.call (.implicitSelf callee.1.position) ⟨callee.1.literal⟩ args callee.1.position, scope)
  | _, _, group _ inner _, scope => inner.tree scope
  | _, _, emptyGroup opening _, scope => (.nilLiteral opening.1.position, scope)
  | _, _, noArguments _ _, scope => ([], scope)
  | _, _, arguments _ list, scope => list.tree scope
  | _, _, lastArgument arg _, scope =>
    let (arg, scope) := arg.tree scope
    ([arg], scope)
  | _, _, argument arg _ rest, scope =>
    let (arg, scope) := arg.tree scope
    let (rest, scope) := rest.tree scope
    (arg :: rest, scope)

/-- How deep expressions are nested inside a phrase. -/
def nesting : {category : Category} → {split : Bool} → Phrase category split → Nat
  | _, _, assignment _ _ value => value.nesting + 1
  | _, _, conditional condition _ ifTrue _ ifFalse =>
    max condition.nesting (max (ifTrue.nesting + 1) (ifFalse.nesting + 1))
  | _, _, operation _ left _ right => max left.nesting right.nesting
  | _, _, signed left right => max left.nesting right.nesting
  | _, _, send receiver _ _ => receiver.nesting
  | _, _, sendCall receiver _ _ args => max receiver.nesting args.nesting
  | _, _, tighter _ inner => inner.nesting
  | _, _, call _ args => args.nesting
  | _, _, group _ inner _ => inner.nesting + 1
  | _, _, arguments _ list => list.nesting
  | _, _, lastArgument arg _ => arg.nesting + 1
  | _, _, argument arg _ rest => max (arg.nesting + 1) rest.nesting
  | _, _, number .. | _, _, digits .. | _, _, string _ | _, _, symbol _ | _, _, trueLiteral _
  | _, _, falseLiteral _ | _, _, nilLiteral _ | _, _, name _ | _, _, emptyGroup ..
  | _, _, noArguments .. => 0

/-! ## What stands behind the parts of a phrase -/

section

variable {split : Bool} {rest : List Token}

theorem conditional_append {condition : Phrase (.level .equality) false}
    {question : Terminal .question} {ifTrue ifFalse : Phrase (.level .expression) false}
    {colon : Terminal .colon} :
    (conditional condition question ifTrue colon ifFalse).tokens ++ rest
      = condition.tokens
        ++ question.1 :: (ifTrue.tokens ++ colon.1 :: (ifFalse.tokens ++ rest)) := by
  refine (List.append_assoc ..).trans (congrArg (condition.tokens ++ question.1 :: ·) ?_)
  exact List.append_assoc ..

theorem operation_append {operator : Operator} {left : Phrase (.level operator.level) split}
    {token : Terminal operator.kind} {right : Phrase (.level operator.level.next) false} :
    (operation operator left token right).tokens ++ rest
      = left.tokens ++ token.1 :: (right.tokens ++ rest) :=
  List.append_assoc ..

theorem signed_append {left : Phrase (.level .sum) split} {right : Phrase (.level .product) true} :
    (signed left right).tokens ++ rest = left.tokens ++ (right.tokens ++ rest) :=
  List.append_assoc ..

theorem send_append {receiver : Phrase (.level .send) split} {dot : Terminal .dot}
    {message : Terminal .identifier} :
    (send receiver dot message).tokens ++ rest
      = receiver.tokens ++ dot.1 :: message.1 :: rest :=
  List.append_assoc ..

theorem sendCall_append {receiver : Phrase (.level .send) split} {dot : Terminal .dot}
    {message : Terminal .identifier} {args : Phrase .parens false} :
    (sendCall receiver dot message args).tokens ++ rest
      = receiver.tokens ++ dot.1 :: message.1 :: (args.tokens ++ rest) :=
  List.append_assoc ..

theorem group_append {opening : Terminal .lparen} {inner : Phrase (.level .expression) false}
    {closing : Terminal .rparen} :
    (group opening inner closing).tokens ++ rest
      = opening.1 :: (inner.tokens ++ closing.1 :: rest) :=
  congrArg (opening.1 :: ·) (List.append_assoc ..)

theorem lastArgument_append {arg : Phrase (.level .expression) false}
    {closing : Terminal .rparen} :
    (lastArgument arg closing).tokens ++ rest = arg.tokens ++ closing.1 :: rest :=
  List.append_assoc ..

theorem argument_append {arg : Phrase (.level .expression) false} {comma : Terminal .comma}
    {list : Phrase .list false} :
    (argument arg comma list).tokens ++ rest
      = arg.tokens ++ comma.1 :: (list.tokens ++ rest) :=
  List.append_assoc ..

end

/-- A name is a variable if it is in scope, and a call without arguments otherwise. -/
theorem tree_name (token : Terminal .identifier) (scope : Names) :
    (name token).tree scope
      = (if scope.contains token.1.literal then .identifier ⟨token.1, true⟩ token.1.position
        else .call (.implicitSelf token.1.position) ⟨token.1.literal⟩ [] token.1.position,
          scope) :=
  rfl

end Phrase

end RubyReader
