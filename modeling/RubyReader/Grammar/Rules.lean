/-
# `Rules` — the grammar

One routine for each goal.  An expression is a leading form and as many
continuations as bind tighter than the least precedence asked for:

    expression      leading continuation*                     line ends in front are skipped
    leading         true | false | nil | number | symbol | string | name bare? | group | def
    group           '(' expression? ')'
    following       '=' expression                            behind a name
                    '(' arguments? ')'                        behind a name or a bare send
                    operator expression
                    signed number, continued as a summand
                    '.' name bare?
                    '?' expression ':' expression
    bare            expression (',' expression)*              if a bare argument begins here
    def             'def' name parameters? end-of-line statements 'end'

The right operand of an operator is read at the precedence of the
operator, which groups to the left; the value of an assignment and the
branches of a conditional are read at the lowest, which groups to the right.
-/
import RubyReader.Grammar.Routine
import RubyReader.Number.Reading

namespace RubyReader
namespace Grammar

open Routine

/-! ## Numbers -/

/-- The value that a text writes, as a number of the kind of its token. -/
def numeral (token : Token) (text : String) : Routine Value :=
  match token.kind with
  | .integer => orOutOfRange ((readInteger? text).map .int)
  | .float => orOutOfRange ((readFloat? text).map .float)
  | _ => misrouted .number token
where
  /-- A value, or the error that the number of the token has none. -/
  orOutOfRange : Option Value → Routine Value
    | some value => pure value
    | none => fail (.malformed (.blame (.outOfRange token) token))

/-! ## Argument lists -/

/-- Arguments without parentheses, if the token at the cursor begins one. -/
def bareArgumentList : Routine (List Node) := do
  let token ← currentToken
  if token.beginsBareArgument then phrase .bareArguments else pure []

/-- One or more expressions between commas. -/
def bareArguments : Routine (List Node) := do
  let argument ← expression .lowest
  if ← eat .comma then
    let rest ← phrase .bareArguments
    pure (argument :: rest)
  else pure [argument]

/-- One or more expressions between commas, up to a closing parenthesis. -/
def arguments : Routine (List Node) := do
  let argument ← expression .lowest
  skipLineEnds
  if ← eat .comma then
    let rest ← phrase .arguments
    pure (argument :: rest)
  else
    let _ ← expect .rparen .callClose
    pure [argument]

/-- Arguments between parentheses. -/
def argumentList : Routine (List Node) := do
  let _ ← expect .lparen .call
  skipLineEnds
  if ← eat .rparen then pure [] else phrase .arguments

/-! ## Leading forms -/

def boolean : Routine Node := do
  let token ← take
  match token.kind with
  | .kwTrue => pure (.trueLiteral token.position)
  | .kwFalse => pure (.falseLiteral token.position)
  | _ => misrouted .boolean token

def nil : Routine Node := do
  let token ← take
  if token.kind = .kwNil then pure (.nilLiteral token.position) else misrouted .nil token

/-- A number; a sign in front of its digits belongs to it.  The cursor
stays on a number that cannot be held. -/
def number : Routine Node := do
  let token ← currentToken
  let value ← numeral token token.literal
  step
  pure (.literal value token.position)

def symbolLiteral : Routine Node := do
  let token ← take
  if token.kind = .symbol then
    let symbol ← symbol token.literal
    pure (.symbol (.sym symbol) token.position)
  else misrouted .symbol token

def stringLiteral : Routine Node := do
  let token ← take
  if token.kind = .string then pure (.string (.str token.literal) token.position)
  else misrouted .string token

/-- A name as a call to the implicit self, with arguments if they follow
at once. -/
def selfCall (left : Node) : Routine Node :=
  match left with
  | .identifier callee position => do
    let message ← symbol callee.name
    let args ← bareArgumentList
    pure (.call (.implicitSelf position) message args position)
  | _ => fail (.internal (.unexpectedNode .identifier left.type left.position))

/-- A name: a known variable or the target of an assignment stands for
itself, any other is a call. -/
def name : Routine Node := do
  let token ← currentToken
  if token.kind = .identifier then
    let behind ← nextToken
    step
    let isLocal ← knows token.literal
    let identifier := .identifier ⟨token, isLocal⟩ token.position
    if isLocal || behind.kind = .assign then pure identifier else selfCall identifier
  else misrouted .identifier token

/-- An expression between parentheses; `()` is nil. -/
def group : Routine Node := do
  let opening ← expect .lparen .group
  skipLineEnds
  if ← eat .rparen then pure (.nilLiteral opening.position)
  else
    let node ← expression .lowest
    skipLineEnds
    let _ ← expect .rparen .groupClose
    pure node

/-- The definition of a method. -/
def definition : Routine Node := do
  let opening ← expect .kwDef .definition
  let name ← expect .identifier .definitionName
  let (params, body) ← phrase .method
  pure (.definition ⟨name, false⟩ params body opening.position)

def leading : LeadingForm → Routine Node
  | .boolean => boolean
  | .nil => nil
  | .number => number
  | .symbol => symbolLiteral
  | .string => stringLiteral
  | .name => name
  | .group => group
  | .definition => definition

/-! ## Following forms -/

/-- The assignment of a variable, which is known from the value on. -/
def assignment : Node → Routine Node
  | .identifier target _ => do
    let sign ← expect .assign .assignment
    let _ ← declareLocal target.name
    let value ← expression .lowest
    pure (.assignment target value sign.position)
  | _ => unexpected .assignable

/-- Arguments in parentheses, behind a name or a call that has none yet;
what ends with a parenthesis takes no further list. -/
def call (left : Node) : Routine Node := do
  let before ← previousToken
  if before.any fun token => token.kind = .rparen then unexpected .endOfLine
  else match left with
    | .identifier callee position => do
      let message ← symbol callee.name
      let args ← argumentList
      pure (.call (.implicitSelf position) message args position)
    | .call receiver message [] position => do
      let args ← argumentList
      pure (.call receiver message args position)
    | _ => unexpected .endOfLine

/-- A binary operator, which is sent to its left operand. -/
def operator (left : Node) : Routine Node := do
  let token ← take
  match token.kind.operator? with
  | some name => do
    let message ← symbol name
    let right ← expression token.precedence
    pure (.call left message [right] token.position)
  | none => misrouted .operator token

/-- A text as its first character and what follows it.  This is total,
where a cut behind the first byte fails on no text at all and on one whose
first character takes more than a byte.  `Goal.routine?` reads with the cut
and fails as it does; on signed numbers the two agree
(`Goal.exists_routine?`). -/
def splitFirst (text : String) : String × String :=
  match text.toList with
  | c :: rest => (String.singleton c, String.ofList rest)
  | [] => ("", "")

/-- A signed number behind an operand: its sign is an operator, and its
digits start the right operand. -/
def signedNumber (left : Node) : Routine Node := do
  let token ← take
  if token.signed then
    let (sign, digits) := splitFirst token.literal
    let value ← numeral token digits
    let message ← symbol sign
    let right ← phrase (.continuation (.literal value token.position) .sum)
    pure (.call left message [right] token.position)
  else misrouted .signedNumber token

/-- A message behind a dot. -/
def send (left : Node) : Routine Node := do
  let dot ← expect .dot .send
  let name ← expect .identifier .sendName
  let message ← symbol name.literal
  let args ← bareArgumentList
  pure (.call left message args dot.position)

/-- A conditional; line ends may stand in front of its colon. -/
def ternary (left : Node) : Routine Node := do
  let sign ← expect .question .ternaryQuestion
  let ifTrue ← expression .lowest
  skipLineEnds
  let _ ← expect .colon .ternaryColon
  let ifFalse ← expression .lowest
  pure (.conditional left ifTrue ifFalse sign.position)

def following (form : FollowingForm) (left : Node) : Routine Node :=
  match form with
  | .assignment => assignment left
  | .call => call left
  | .operator => operator left
  | .signedNumber => signedNumber left
  | .send => send left
  | .ternary => ternary left

/-! ## Expressions and statements -/

/-- A leading form and what continues it. -/
def expressionFrom (min : Precedence) : Routine Node := do
  skipLineEnds
  let token ← currentToken
  match token.kind.leading? with
  | some form => do
    let left ← phrase (.leading form)
    phrase (.continuation left min)
  | none => unexpected .expression

/-- The continuations that bind tighter than `min`. -/
def continuation (left : Node) (min : Precedence) : Routine Node := do
  let token ← currentToken
  if min < token.precedence then
    match token.kind.following? with
    | some form => do
      let longer ← phrase (.following form left)
      phrase (.continuation longer min)
    | none => pure left
  else pure left

/-- Statements up to a terminator or the end of the input. -/
def statements (terminator : TokenKind) : Routine (List Node) := do
  skipLineEnds
  let token ← currentToken
  if token.kind = terminator || token.kind = .eof then pure []
  else
    let statement ← expression .lowest
    endStatement
    let rest ← phrase (.statements terminator)
    pure (statement :: rest)

/-! ## Methods -/

/-- A parameter: a name that no parameter before it has.  Anything else
that starts an expression is read first, and then refused. -/
def parameter : Routine Node := do
  let token ← currentToken
  if token.kind = .identifier then
    let isNew ← declareLocal token.literal
    if isNew then
      step
      pure (.identifier ⟨token, true⟩ token.position)
    else fail (.malformed (.blame .duplicatedArgument token))
  else
    match token.kind.leading? with
    | some form => do
      let node ← phrase (.leading form)
      fail (.internal (.unexpectedNode .identifier node.type node.position))
    | none => unexpected .parameterName

/-- One or more parameters between commas, up to a closing parenthesis. -/
def parameters : Routine (List Node) := do
  let first ← phrase .parameter
  skipLineEnds
  if ← eat .comma then
    skipLineEnds
    let rest ← phrase .parameters
    pure (first :: rest)
  else
    let _ ← expect .rparen .parametersClose
    pure [first]

/-- One or more parameters between commas, on one line. -/
def bareParameters : Routine (List Node) := do
  let first ← phrase .parameter
  if ← eat .comma then
    let rest ← phrase .bareParameters
    pure (first :: rest)
  else pure [first]

/-- Parameters between parentheses. -/
def parenthesizedParameters : Routine (List Node) := do
  let _ ← expect .lparen .parameters
  skipLineEnds
  if ← eat .rparen then pure [] else phrase .parameters

/-- The parameters of a method, if it has any. -/
def parameterList : Routine (List Node) := do
  let token ← currentToken
  match token.kind with
  | .lparen => parenthesizedParameters
  | .newline | .eof | .kwEnd => pure []
  | _ => phrase .bareParameters

/-- The parameters of a method, the end of their line, and its body. -/
def method : Routine (List Node × List Node) := do
  let params ← parameterList
  endStatement
  let body ← phrase (.statements .kwEnd)
  let _ ← expect .kwEnd .definitionEnd
  pure (params, body)

end Grammar

/-- How a goal is read. -/
def Goal.routine : (goal : Goal) → Routine goal.Result
  | .expression min => Grammar.expressionFrom min
  | .leading form => Grammar.leading form
  | .following form left => Grammar.following form left
  | .continuation left min => Grammar.continuation left min
  | .statements terminator => Grammar.statements terminator
  | .bareArguments => Grammar.bareArguments
  | .arguments => Grammar.arguments
  | .method => Grammar.method
  | .parameter => Grammar.parameter
  | .parameters => Grammar.parameters
  | .bareParameters => Grammar.bareParameters

end RubyReader
