/-
# `Lexer` — a text as lexemes, and as tokens

A text is cut into lexemes, each a nonempty run of characters: a token, a
blank (spaces and comments), or text that is no token.  What a lexeme is,
and how far it reaches, depends on the text from its first character on
and on nothing before it; of the readings of a text the longest wins.

    number     sign? digit+ ( '.' digit+ )?
    word       letter ( letter | digit )* ( '?' | '!' )?        with '_' a letter
    symbol     ':' word
    string     '"' ( other | '\' any but newline )* '"'   or between single quotes
    operator   + - * / = == < <= > >= ( ) , . ? : ; newline
    blank      ( space | tab | return | form feed )+   or '#' up to the end of the line

The letters and digits are those of ASCII.  The forms say which lexemes are
tokens and blanks.  How far an error reaches they do not say, and this is an
assumption: a quote that is never closed takes all that could still be inside
its string, and any other character that begins no lexeme stands by itself.
-/
import RubyReader.Source.Lines
import RubyReader.Diagnostic

namespace RubyReader

/-! ## Character classes -/

/-- The characters that may begin a word. -/
def isWordStart (c : Char) : Bool := c.isAlpha || c = '_'

/-- The characters that may go on in a word. -/
def isWordChar (c : Char) : Bool := c.isAlphanum || c = '_'

/-- The blanks inside a line. -/
def isSpace (c : Char) : Bool := c = ' ' || c = '\t' || c = '\r' || c = '\x0c'

/-- The length of the longest start of a list on which a test holds. -/
def runLength (test : Char → Bool) (chars : List Char) : Nat := (chars.takeWhile test).length

/-! ## Lexemes -/

/-- What a lexeme is. -/
inductive LexemeClass where
  | token (kind : TokenKind)
  | blank
  /-- a quote that is never closed -/
  | openString
  /-- a character that begins no lexeme -/
  | stray
deriving DecidableEq

/-- A lexeme with its characters, of which there is at least one. -/
structure Lexeme where
  cls : LexemeClass
  first : Char
  rest : List Char
deriving DecidableEq

def Lexeme.chars (lexeme : Lexeme) : List Char := lexeme.first :: lexeme.rest

def Lexeme.text (lexeme : Lexeme) : String := String.ofList lexeme.chars

namespace Lexer

/-! ## How far a lexeme reaches

Each function is given the characters behind the first one and counts how
many of them belong to the lexeme. -/

/-- The rest of a number, behind its first digit. -/
def numberTail (chars : List Char) : TokenKind × Nat :=
  let whole := runLength Char.isDigit chars
  match chars.drop whole with
  | '.' :: d :: more =>
    if d.isDigit then (.float, whole + 2 + runLength Char.isDigit more) else (.integer, whole)
  | _ => (.integer, whole)

/-- A sign: an operator, or the start of a number if a digit follows at once. -/
def signTail (operator : TokenKind) : List Char → TokenKind × Nat
  | d :: more =>
    if d.isDigit then
      let (kind, length) := numberTail more
      (kind, length + 1)
    else (operator, 0)
  | [] => (operator, 0)

/-- The rest of a word, behind its first letter. -/
def wordTail (chars : List Char) : Nat :=
  let length := runLength isWordChar chars
  match chars.drop length with
  | c :: _ => if c = '?' || c = '!' then length + 1 else length
  | [] => length

def wordKind (text : List Char) : TokenKind :=
  (TokenKind.keyword? (String.ofList text)).getD .identifier

/-- A colon: the start of a symbol if a word follows at once. -/
def colonTail : List Char → TokenKind × Nat
  | c :: more => if isWordStart c then (.symbol, 1 + wordTail more) else (.colon, 0)
  | [] => (.colon, 0)

/-- The rest of a double quoted string.  That an open string takes all that
could still be inside it, and not more or less, is an assumption. -/
def doubleQuotedTail : List Char → LexemeClass × Nat
  | [] => (.openString, 0)
  | '"' :: _ => (.token .string, 1)
  | ['\\'] => (.openString, 0)
  | '\\' :: escaped :: more =>
    if escaped = '\n' then (.openString, 0)
    else
      let (cls, length) := doubleQuotedTail more
      (cls, length + 2)
  | _ :: more =>
    let (cls, length) := doubleQuotedTail more
    (cls, length + 1)

/-- The rest of a single quoted string, in which nothing is escaped.  The
assumption about open strings is that of `doubleQuotedTail`. -/
def singleQuotedTail (chars : List Char) : LexemeClass × Nat :=
  let length := runLength (fun c => c ≠ '\'') chars
  if length < chars.length then (.token .string, length + 1) else (.openString, length)

/-- A character that may be followed by `=` to form one operator. -/
def comparisonTail (alone withEqual : TokenKind) : List Char → TokenKind × Nat
  | '=' :: _ => (withEqual, 1)
  | _ => (alone, 0)

/-- The class of the lexeme that begins with `c`, and how many of the
characters `cs` behind it belong to it.  For tokens and blanks this is the
longest form that matches; that a stray character is an error of its own is
an assumption, as is the reach of an open string. -/
def classify (c : Char) (cs : List Char) : LexemeClass × Nat :=
  if isSpace c then (.blank, runLength isSpace cs)
  else if isWordStart c then
    let length := wordTail cs
    (.token (wordKind (c :: cs.take length)), length)
  else if c.isDigit then lift (numberTail cs)
  else match c with
    | '#' => (.blank, runLength (fun c => c ≠ '\n') cs)
    | '+' => lift (signTail .plus cs)
    | '-' => lift (signTail .minus cs)
    | '"' => doubleQuotedTail cs
    | '\'' => singleQuotedTail cs
    | ':' => lift (colonTail cs)
    | '=' => lift (comparisonTail .assign .equal cs)
    | '<' => lift (comparisonTail .less .lessEqual cs)
    | '>' => lift (comparisonTail .greater .greaterEqual cs)
    | '*' => (.token .times, 0)
    | '/' => (.token .divide, 0)
    | '(' => (.token .lparen, 0)
    | ')' => (.token .rparen, 0)
    | ',' => (.token .comma, 0)
    | '.' => (.token .dot, 0)
    | '?' => (.token .question, 0)
    | '\n' | ';' => (.token .newline, 0)
    | _ => (.stray, 0)
where
  /-- A kind as a class. -/
  lift : TokenKind × Nat → LexemeClass × Nat
    | (kind, length) => (.token kind, length)

def lexemes : List Char → List Lexeme
  | [] => []
  | c :: cs =>
    let found := classify c cs
    ⟨found.1, c, cs.take found.2⟩ :: lexemes (cs.drop found.2)
termination_by chars => chars.length
decreasing_by simp only [List.length_drop, List.length_cons]; omega

/-! ## From lexemes to tokens -/

/-- The inside of a double quoted string with its escapes resolved: newline,
tab and NUL have letters, any other character stands for itself. -/
def unescape : List Char → List Char
  | [] => []
  | '\\' :: c :: cs => escaped c :: unescape cs
  | c :: cs => c :: unescape cs
where
  /-- The character that an escape stands for. -/
  escaped : Char → Char
    | 'n' => '\n'
    | 't' => '\t'
    | '0' => '\x00'
    | c => c

/-- The content of a token: strings lose their quotes and escapes, symbols
their colon, all else is its own text. -/
def content (kind : TokenKind) (lexeme : Lexeme) : String :=
  match kind with
  | .string =>
    let inside := lexeme.rest.dropLast
    String.ofList (if lexeme.first = '"' then unescape inside else inside)
  | .symbol => String.ofList lexeme.rest
  | _ => lexeme.text

/-- The token of a lexeme at a place, if it is one. -/
def token? (position : Position) (lexeme : Lexeme) : Option Token :=
  match lexeme.cls with
  | .token kind => some (.new kind (content kind lexeme) position)
  | _ => none

def error? (position : Position) (lexeme : Lexeme) : Option SyntaxError :=
  match lexeme.cls with
  | .openString => some ⟨.unterminatedString, position, some lexeme.text⟩
  | .stray => some ⟨.unexpectedCharacter lexeme.text, position, some lexeme.text⟩
  | _ => none

/-- Each lexeme with the offset of its first byte, the first at `offset`. -/
def withOffsets (offset : Nat) : List Lexeme → List (Nat × Lexeme)
  | [] => []
  | lexeme :: rest => (offset, lexeme) :: withOffsets (offset + byteLength lexeme.chars) rest

/-- Each lexeme of a text with its place. -/
def placed (chars : List Char) : List (Position × Lexeme) :=
  let lines := Lines.ofChars chars
  (withOffsets 0 (lexemes chars)).map fun (offset, lexeme) => (lines.positionOf offset, lexeme)

end Lexer

/-- The tokens of a text, of which the last is the end of the input, and
what was wrong with the text. -/
structure Lexed where
  tokens : List Token
  report : Report
deriving DecidableEq

/-- Reads a whole text as tokens; what is no token is reported and left out. -/
def lex (text : String) : Lexed :=
  let chars := text.toList
  let placed := Lexer.placed chars
  let atEnd := (Lines.ofChars chars).positionOf (byteLength chars)
  { tokens := placed.filterMap (fun (position, lexeme) => Lexer.token? position lexeme)
      ++ [.endOfInput atEnd]
    report := ⟨placed.filterMap fun (position, lexeme) => Lexer.error? position lexeme⟩ }

end RubyReader
