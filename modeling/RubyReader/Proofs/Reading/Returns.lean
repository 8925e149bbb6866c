/-
# `Returns` — what a routine can come back with

A routine that is run with a reader for the phrases inside it either fails
or returns.  `Returns` says which results it may come back with, and where,
when all that is known of the reader is a relation:

    nested goal p a q        from p the reader reads a, and ends at q
    r.Returns nested p a q   from p the routine r returns a, and ends at q

With the graph of a reader for `nested` this is what `run` computes
(`run_eq_ok_iff`).  Each step that rules are made of has one lemma here, an
equivalence, and with them a rule turns into what it asks of the tokens.
-/
import RubyReader.Parser.Unfold
import RubyReader.Proofs.Reading.Cursor

namespace RubyReader

/-! ## Moves of a parser

A parser moves by a token or past line ends, opens and closes expressions, and learns
variables and symbols.  Each move changes one part and leaves the others, as the simp lemmas
say. -/

namespace Parser

def token (p : Parser) : Token := p.cursor.current

def advance (p : Parser) : Parser := { p with cursor := p.cursor.advance }

def skipLines (p : Parser) : Parser := { p with cursor := p.cursor.skipLines }

def declare (p : Parser) (name : String) : Parser := { p with scope := p.scope.insert name }

def intern (p : Parser) (name : String) : Parser := { p with symbols := p.symbols.insert name }

def afterParen (p : Parser) : Bool := p.cursor.previous?.any fun token => token.kind = .rparen

theorem next_eq {p : Parser} (h : p.token.kind ≠ .eof) : p.cursor.next = p.advance.token :=
  (Cursor.current_advance h).symm

theorem token_of_upcoming {p : Parser} {token : Token} {rest : List Token}
    (all : p.cursor.upcoming = token :: rest) : p.token = token := (List.cons.inj all).1

theorem upcoming_advance {p : Parser} {token : Token} {rest : List Token}
    (ne : p.token.kind ≠ .eof) (all : p.cursor.upcoming = token :: rest) :
    p.advance.cursor.upcoming = rest :=
  (List.cons.inj ((Cursor.upcoming_of_ne ne).symm.trans all)).2

theorem previous_advance {p : Parser} (h : p.token.kind ≠ .eof) :
    p.cursor.advance.previous? = some p.token :=
  Cursor.previous_advance h

theorem skipLines_of_ne {p : Parser} (h : p.token.kind ≠ .newline) : p.skipLines = p := by
  obtain ⟨cursor, scope, symbols, depth⟩ := p
  exact congrArg (Parser.mk · scope symbols depth) (Cursor.skipLines_of_ne h)

theorem skipLines_of_newline {p : Parser} (h : p.token.kind = .newline) :
    p.skipLines = p.advance.skipLines := by
  obtain ⟨cursor, scope, symbols, depth⟩ := p
  exact congrArg (Parser.mk · scope symbols depth) (Cursor.skipLines_of_newline h)

theorem lines_induction {motive : Parser → Prop}
    (stop : ∀ p : Parser, p.token.kind ≠ .newline → motive p)
    (step : ∀ p : Parser, p.token.kind = .newline → motive p.advance → motive p)
    (p : Parser) : motive p := by
  obtain ⟨cursor, scope, symbols, depth⟩ := p
  induction cursor using Cursor.lines_induction with
  | stop c other => exact stop _ other
  | step c newline ih => exact step _ newline ih

/-- What holds of two parsers holds of both behind the line ends, if both stand at one or none
does, and a step over one preserves it. -/
theorem skipLines_both {Both : Parser → Parser → Prop}
    (alike : ∀ p p', Both p p' → (p'.token.kind = .newline ↔ p.token.kind = .newline))
    (step : ∀ p p', Both p p' → p.token.kind = .newline → Both p.advance p'.advance)
    {p p' : Parser} (h : Both p p') : Both p.skipLines p'.skipLines := by
  induction p using lines_induction generalizing p' with
  | stop p other =>
      have other' : p'.token.kind ≠ .newline := by rwa [Ne, alike p p' h]
      rwa [skipLines_of_ne other, skipLines_of_ne other']
  | step p newline ih =>
      have newline' : p'.token.kind = .newline := (alike p p' h).mpr newline
      rw [skipLines_of_newline newline, skipLines_of_newline newline']
      exact ih (step p p' h newline)

variable (p : Parser) (name : String) (names : Names)

@[simp] theorem cursor_advance : p.advance.cursor = p.cursor.advance := rfl
@[simp] theorem scope_advance : p.advance.scope = p.scope := rfl
@[simp] theorem depth_advance : p.advance.depth = p.depth := rfl
@[simp] theorem cursor_skipLines : p.skipLines.cursor = p.cursor.skipLines := rfl
@[simp] theorem scope_skipLines : p.skipLines.scope = p.scope := rfl
@[simp] theorem depth_skipLines : p.skipLines.depth = p.depth := rfl
@[simp] theorem cursor_declare : (p.declare name).cursor = p.cursor := rfl
@[simp] theorem scope_declare : (p.declare name).scope = p.scope.insert name := rfl
@[simp] theorem depth_declare : (p.declare name).depth = p.depth := rfl
@[simp] theorem token_declare : (p.declare name).token = p.token := rfl
@[simp] theorem cursor_intern : (p.intern name).cursor = p.cursor := rfl
@[simp] theorem scope_intern : (p.intern name).scope = p.scope := rfl
@[simp] theorem depth_intern : (p.intern name).depth = p.depth := rfl
@[simp] theorem token_intern : (p.intern name).token = p.token := rfl
@[simp] theorem cursor_opened : p.opened.cursor = p.cursor := rfl
@[simp] theorem scope_opened : p.opened.scope = p.scope := rfl
@[simp] theorem depth_opened : p.opened.depth = p.depth + 1 := rfl
@[simp] theorem token_opened : p.opened.token = p.token := rfl
@[simp] theorem cursor_closed : p.closed.cursor = p.cursor := rfl
@[simp] theorem scope_closed : p.closed.scope = p.scope := rfl
@[simp] theorem depth_closed : p.closed.depth = p.depth - 1 := rfl
@[simp] theorem token_closed : p.closed.token = p.token := rfl
@[simp] theorem cursor_withScope : (p.withScope names).cursor = p.cursor := rfl
@[simp] theorem scope_withScope : (p.withScope names).scope = names := rfl
@[simp] theorem depth_withScope : (p.withScope names).depth = p.depth := rfl
@[simp] theorem token_withScope : (p.withScope names).token = p.token := rfl

end Parser

/-- The value that a text writes, as a number of the kind of a token. -/
def Token.numeral? (token : Token) (text : String) : Option Value :=
  match token.kind with
  | .integer => (readInteger? text).map .int
  | .float => (readFloat? text).map .float
  | _ => none

theorem Token.numeral?_of_integer {token : Token} {text : String} (h : token.kind = .integer) :
    token.numeral? text = (readInteger? text).map .int := by
  simp only [numeral?, h]

theorem Token.numeral?_of_float {token : Token} {text : String} (h : token.kind = .float) :
    token.numeral? text = (readFloat? text).map .float := by
  simp only [numeral?, h]

theorem Token.numeral?_of_other {token : Token} {text : String} (noInteger : token.kind ≠ .integer)
    (noFloat : token.kind ≠ .float) : token.numeral? text = none := by
  unfold numeral?
  split <;> trivial

/-- The kinds of the tokens that may stand behind a statement. -/
def TokenKind.EndsStatement (kind : TokenKind) : Prop :=
  kind = .newline ∨ kind = .eof ∨ kind = .kwEnd

/-! ## Returning -/

/-- Phrases as a relation: which goal is read from where, as what, up to where. -/
abbrev Reader : Type := (goal : Goal) → Parser → goal.Result → Parser → Prop

namespace Routine

/-- From `p` the routine returns `a` at `q`, where the phrases inside it are
read as `nested` says. -/
def Returns {α : Type} (nested : Reader) : Routine α → Parser → α → Parser → Prop
  | .done result, p, a, q => a = result ∧ q = p
  | .fail _, _, _, _ => False
  | .current go, p, a, q => Returns nested (go p.token) p a q
  | .next go, p, a, q => Returns nested (go p.cursor.next) p a q
  | .previous go, p, a, q => Returns nested (go p.cursor.previous?) p a q
  | .advance go, p, a, q => Returns nested go p.advance a q
  | .skipLines go, p, a, q => Returns nested go p.skipLines a q
  | .isLocal name go, p, a, q => Returns nested (go (p.scope.contains name)) p a q
  | .declare name go, p, a, q =>
    Returns nested (go (!p.scope.contains name)) (p.declare name) a q
  | .intern name go, p, a, q => Returns nested go (p.intern name) a q
  | .read goal go, p, a, q =>
    ∃ result p', nested goal p result p' ∧ Returns nested (go result) p' a q

variable {α β : Type} {nested : Reader} {p q : Parser}

/-- Running a routine and returning from it are the same. -/
theorem run_eq_ok_iff {read : (goal : Goal) → Parser → Option (Outcome goal.Result)}
    {r : Routine α} {a : α} :
    r.run read p = some (.ok a, q) ↔
      r.Returns (fun goal p b p' => read goal p = some (.ok b, p')) p a q := by
  induction r generalizing p with
  | done result =>
      simp only [run, Returns, Option.some.injEq, Prod.mk.injEq, Except.ok.injEq]
      exact and_congr eq_comm eq_comm
  | fail e => simp [run, Returns]
  | current go ih => exact ih _
  | next go ih => exact ih _
  | previous go ih => exact ih _
  | advance go ih => exact @ih p.advance
  | skipLines go ih => exact @ih p.skipLines
  | isLocal name go ih => exact ih _
  | declare name go ih => exact @ih _ (p.declare name)
  | intern name go ih => exact @ih (p.intern name)
  | read goal go ih =>
      simp only [run, Returns]
      cases found : read goal p with
      | none => simp
      | some outcome =>
          obtain ⟨result, p'⟩ := outcome
          cases result with
          | error e => simp
          | ok b =>
              simp only [Option.some.injEq, Prod.mk.injEq, Except.ok.injEq, ih]
              constructor
              · exact fun h => ⟨b, p', ⟨rfl, rfl⟩, h⟩
              · rintro ⟨b', p'', ⟨rfl, rfl⟩, h⟩
                exact h

/-- A reader that reads more lets a routine return more. -/
theorem Returns.mono {nested' : Reader}
    (h : ∀ goal p a q, nested goal p a q → nested' goal p a q) {r : Routine α} {a : α}
    (returns : r.Returns nested p a q) : r.Returns nested' p a q := by
  induction r generalizing p with
  | done => exact returns
  | fail => exact returns
  | current go ih => exact ih _ returns
  | next go ih => exact ih _ returns
  | previous go ih => exact ih _ returns
  | advance go ih => exact ih returns
  | skipLines go ih => exact ih returns
  | isLocal name go ih => exact ih _ returns
  | declare name go ih => exact ih _ returns
  | intern name go ih => exact ih returns
  | read goal go ih =>
      obtain ⟨result, p', found, rest⟩ := returns
      exact ⟨result, p', h _ _ _ _ found, ih result rest⟩

theorem returns_bind {r : Routine α} {k : α → Routine β} {b : β} :
    (r >>= k).Returns nested p b q ↔
      ∃ a p', r.Returns nested p a p' ∧ (k a).Returns nested p' b q := by
  show (r.bind k).Returns nested p b q ↔ _
  induction r generalizing p with
  | done result =>
      simp only [bind, Returns, and_assoc, exists_and_left, exists_eq_left]
  | fail e => simp only [bind, Returns, false_and, exists_false]
  | current go ih => exact ih _
  | next go ih => exact ih _
  | previous go ih => exact ih _
  | advance go ih => exact ih
  | skipLines go ih => exact ih
  | isLocal name go ih => exact ih _
  | declare name go ih => exact ih _
  | intern name go ih => exact ih
  | read goal go ih =>
      simp only [bind, Returns, ih]
      constructor
      · rintro ⟨result, p₁, found, a, p₂, h, h'⟩
        exact ⟨a, p₂, ⟨result, p₁, found, h⟩, h'⟩
      · rintro ⟨a, p₂, ⟨result, p₁, found, h⟩, h'⟩
        exact ⟨result, p₁, found, a, p₂, h, h'⟩

/-! ## The steps that rules are made of

Each in front of what comes after it, since most of them leave no choice. -/

section Steps

variable {k : Token → Routine α} {j : Bool → Routine α} {next : Unit → Routine α} {a : α}

theorem returns_pure {b : α} : (pure b : Routine α).Returns nested p a q ↔ a = b ∧ q = p := Iff.rfl

theorem returns_fail {e : ParseError} :
    (fail e : Routine α).Returns nested p a q ↔ False := Iff.rfl

theorem returns_unexpected {expected : Expectation} :
    (unexpected expected : Routine α).Returns nested p a q ↔ False := Iff.rfl

theorem returns_misrouted {rule : TokenRule} {token : Token} :
    (misrouted rule token : Routine α).Returns nested p a q ↔ False := Iff.rfl

theorem returns_currentToken :
    (currentToken >>= k).Returns nested p a q ↔ (k p.token).Returns nested p a q := Iff.rfl

theorem returns_nextToken :
    (nextToken >>= k).Returns nested p a q ↔ (k p.cursor.next).Returns nested p a q := Iff.rfl

theorem returns_previousToken {k : Option Token → Routine α} :
    (previousToken >>= k).Returns nested p a q ↔
      (k p.cursor.previous?).Returns nested p a q := Iff.rfl

theorem returns_step :
    (step >>= next).Returns nested p a q ↔ (next ()).Returns nested p.advance a q := Iff.rfl

theorem returns_skipLineEnds :
    (skipLineEnds >>= next).Returns nested p a q ↔ (next ()).Returns nested p.skipLines a q :=
  Iff.rfl

theorem returns_knows {name : String} :
    (knows name >>= j).Returns nested p a q ↔
      (j (p.scope.contains name)).Returns nested p a q := Iff.rfl

theorem returns_declareLocal {name : String} :
    (declareLocal name >>= j).Returns nested p a q ↔
      (j (!p.scope.contains name)).Returns nested (p.declare name) a q := Iff.rfl

theorem returns_symbol {name : String} {k : Symbol → Routine α} :
    (symbol name >>= k).Returns nested p a q ↔ (k ⟨name⟩).Returns nested (p.intern name) a q :=
  Iff.rfl

theorem returns_take :
    (take >>= k).Returns nested p a q ↔ (k p.token).Returns nested p.advance a q := Iff.rfl

theorem returns_phrase_bind {goal : Goal} {k : goal.Result → Routine α} :
    (phrase goal >>= k).Returns nested p a q ↔
      ∃ b p', nested goal p b p' ∧ (k b).Returns nested p' a q := Iff.rfl

theorem returns_phrase {goal : Goal} {b : goal.Result} :
    (phrase goal).Returns nested p b q ↔ nested goal p b q := by
  simp only [phrase, Returns]
  constructor
  · rintro ⟨_, _, h, rfl, rfl⟩
    exact h
  · intro h
    exact ⟨b, q, h, rfl, rfl⟩

theorem returns_expression_bind {min : Precedence} {k : Node → Routine α} :
    (expression min >>= k).Returns nested p a q ↔
      ∃ node p', nested (.expression min) p node p' ∧ (k node).Returns nested p' a q := Iff.rfl

theorem returns_expect {kind : TokenKind} {within : Construct} :
    (expect kind within >>= k).Returns nested p a q ↔
      p.token.kind = kind ∧ (k p.token).Returns nested p.advance a q := by
  rw [returns_bind]
  unfold expect
  simp only [returns_currentToken]
  by_cases h : p.token.kind = kind
  · simp only [h, ↓reduceIte, true_and]
    constructor
    · rintro ⟨_, _, ⟨rfl, rfl⟩, rest⟩
      exact rest
    · intro rest
      exact ⟨_, _, ⟨rfl, rfl⟩, rest⟩
  · simp [h, returns_unexpected]

theorem returns_eat {kind : TokenKind} :
    (eat kind >>= j).Returns nested p a q ↔
      p.token.kind = kind ∧ (j true).Returns nested p.advance a q ∨
        p.token.kind ≠ kind ∧ (j false).Returns nested p a q := by
  rw [returns_bind]
  unfold eat
  simp only [returns_currentToken]
  by_cases h : p.token.kind = kind <;>
    simp [h, returns_step, returns_pure, and_assoc]

/-- Behind a statement stand line ends, which are skipped, or an `end`, or
the end of the input. -/
theorem returns_endStatement :
    (endStatement >>= next).Returns nested p a q ↔
      p.token.kind.EndsStatement ∧ (next ()).Returns nested p.skipLines a q := by
  have same (h : p.token.kind ≠ .newline) : p.skipLines = p := Parser.skipLines_of_ne h
  have unit {P : Unit → Prop} : (∃ u, P u) ↔ P () := by
    constructor
    · rintro ⟨⟨⟩, h⟩
      exact h
    · intro h
      exact ⟨(), h⟩
  rw [returns_bind]
  unfold endStatement TokenKind.EndsStatement
  simp only [returns_currentToken]
  split
  · rename_i h
    simp [skipLineEnds, Returns, unit, h]
  · rename_i h
    simp [returns_pure, unit, h, same]
  · rename_i h
    simp [returns_pure, unit, h, same]
  · rename_i newline eof kwEnd
    simp only [returns_unexpected, false_and, exists_false, false_iff]
    rintro ⟨h | h | h, -⟩
    · exact newline h
    · exact eof h
    · exact kwEnd h

end Steps

end Routine

/-! ## The longer steps of the grammar -/

namespace Grammar

open Routine

variable {α : Type} {nested : Reader} {p q : Parser} {a : α}

theorem returns_numeral {token : Token} {text : String} {k : Value → Routine α} :
    (numeral token text >>= k).Returns nested p a q ↔
      ∃ value, token.numeral? text = some value ∧ (k value).Returns nested p a q := by
  rw [returns_bind]
  have worked (found : Option Value) {value : Value} {p' : Parser} :
      (numeral.orOutOfRange token found).Returns nested p value p' ↔
        found = some value ∧ p' = p := by
    cases found with
    | none => simp [numeral.orOutOfRange, returns_fail]
    | some v => simp only [numeral.orOutOfRange, returns_pure, Option.some.injEq, eq_comm]
  have whole {value : Value} {p' : Parser} :
      (numeral token text).Returns nested p value p' ↔
        token.numeral? text = some value ∧ p' = p := by
    unfold numeral
    split
    · rename_i integer
      rw [worked, Token.numeral?_of_integer integer]
    · rename_i float
      rw [worked, Token.numeral?_of_float float]
    · rename_i noInteger noFloat
      simp only [returns_misrouted, Token.numeral?_of_other noInteger noFloat, reduceCtorEq,
        false_and]
  simp only [whole, and_assoc, exists_and_left, exists_eq_left]

theorem returns_bareArgumentList {k : List Node → Routine α} :
    (bareArgumentList >>= k).Returns nested p a q ↔
      p.token.beginsBareArgument = true ∧
          (∃ args p', nested .bareArguments p args p' ∧ (k args).Returns nested p' a q) ∨
        p.token.beginsBareArgument = false ∧ (k []).Returns nested p a q := by
  have list {args : List Node} {p' : Parser} :
      (phrase .bareArguments).Returns nested p args p' ↔ nested .bareArguments p args p' :=
    returns_phrase
  rw [returns_bind]
  unfold bareArgumentList
  simp only [returns_currentToken]
  cases p.token.beginsBareArgument <;> simp [list, returns_pure, and_assoc]

theorem returns_argumentList {k : List Node → Routine α} :
    (argumentList >>= k).Returns nested p a q ↔
      p.token.kind = .lparen ∧
        (p.advance.skipLines.token.kind = .rparen ∧
            (k []).Returns nested p.advance.skipLines.advance a q ∨
          p.advance.skipLines.token.kind ≠ .rparen ∧
            ∃ args p', nested .arguments p.advance.skipLines args p' ∧
              (k args).Returns nested p' a q) := by
  have list {args : List Node} {p p' : Parser} :
      (phrase .arguments).Returns nested p args p' ↔ nested .arguments p args p' :=
    returns_phrase
  rw [returns_bind]
  unfold argumentList
  simp only [returns_expect, returns_skipLineEnds, returns_eat]
  by_cases closing : p.advance.skipLines.token.kind = .rparen <;>
    simp [closing, list, returns_pure, and_assoc]

theorem returns_parameterList {k : List Node → Routine α} :
    (parameterList >>= k).Returns nested p a q ↔
      p.token.kind.EndsStatement ∧ (k []).Returns nested p a q ∨
        p.token.kind = .lparen ∧ p.advance.skipLines.token.kind = .rparen ∧
          (k []).Returns nested p.advance.skipLines.advance a q ∨
        p.token.kind = .lparen ∧ p.advance.skipLines.token.kind ≠ .rparen ∧
          (∃ params p', nested .parameters p.advance.skipLines params p' ∧
            (k params).Returns nested p' a q) ∨
        p.token.kind ≠ .lparen ∧ ¬ p.token.kind.EndsStatement ∧
          ∃ params p', nested .bareParameters p params p' ∧ (k params).Returns nested p' a q := by
  have list {params : List Node} {p p' : Parser} :
      (phrase .parameters).Returns nested p params p' ↔ nested .parameters p params p' :=
    returns_phrase
  have bare {params : List Node} {p p' : Parser} :
      (phrase .bareParameters).Returns nested p params p' ↔ nested .bareParameters p params p' :=
    returns_phrase
  rw [returns_bind]
  unfold parameterList TokenKind.EndsStatement
  simp only [returns_currentToken]
  split
  · rename_i h
    unfold parenthesizedParameters
    simp only [returns_expect, returns_skipLineEnds, returns_eat]
    by_cases closing : p.advance.skipLines.token.kind = .rparen <;>
      simp [h, closing, list, returns_pure, and_assoc]
  · rename_i h
    simp [h, returns_pure, and_assoc]
  · rename_i h
    simp [h, returns_pure, and_assoc]
  · rename_i h
    simp [h, returns_pure, and_assoc]
  · rename_i paren newline eof kwEnd
    have ends : ¬ (p.token.kind = .newline ∨ p.token.kind = .eof ∨ p.token.kind = .kwEnd) := by
      rintro (h | h | h)
      · exact newline h
      · exact eof h
      · exact kwEnd h
    have noParen : p.token.kind ≠ .lparen := paren
    simp [ends, noParen, bare]

end Grammar

end RubyReader
