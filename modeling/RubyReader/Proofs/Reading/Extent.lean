/-
# `Extent` — how far a reading gets, and what it ends with

The tail of an input is what stands behind some place of it.  A parser may have come up to the
tail, or stand in front of it:

    UpTo     it has not gone beyond the beginning of the tail
    Within   it stands in front of the tail

A phrase that ends up to the tail began up to it, and in front of it if it has a token.

No expression goes on with a token that closes (`Token.Closes`), whatever its least precedence.
And behind a phrase nothing is owed (`Reads.settles`): it does not end with an operator, an
opening parenthesis, a comma or a line end.
-/
import RubyReader.Proofs.Reading.Invariants

namespace RubyReader

/-! ## How far a reading gets -/

section

variable {limit : Option Nat} {goal : Goal} {p q : Parser} {tail : List Token}

theorem Reads.moved {a : goal.Result} (h : Reads limit goal p a q) :
    goal.Moved p.cursor q.cursor := by
  obtain ⟨result, r, found, moved⟩ :=
    Parser.attempt_total limit _ goal p (Nat.lt_succ_self (goal.cost p.cursor))
  have same := Option.some.inj (found.symm.trans (Parser.attempt_eq_read limit goal p))
  rw [Parser.read_eq_ok_iff.mpr h] at same
  obtain ⟨rfl, rfl⟩ := Prod.mk.inj same
  exact moved a rfl

/-- The parser has not gone beyond the beginning of the tail. -/
def Parser.UpTo (tail : List Token) (p : Parser) : Prop := tail.length ≤ p.cursor.remaining + 1

/-- The parser stands in front of the tail. -/
def Parser.Within (tail : List Token) (p : Parser) : Prop := tail.length ≤ p.cursor.remaining

theorem Parser.Within.upTo (h : p.Within tail) : p.UpTo tail := Nat.le_succ_of_le h

theorem Parser.UpTo.within (up : p.advance.UpTo tail) (ne : p.token.kind ≠ .eof) :
    p.Within tail := by
  exact Nat.le_trans up (Nat.le_of_eq (Cursor.remaining_advance_of_ne ne))

theorem Parser.Within.of_skipLines (h : p.skipLines.Within tail) : p.Within tail :=
  Nat.le_trans h (Cursor.remaining_skipLines_le p.cursor)

/-- In front of a tail a parser has not gone beyond its beginning. -/
theorem Parser.UpTo.of_upcoming {tokens : List Token}
    (upcoming : p.cursor.upcoming = tokens ++ tail) : p.UpTo tail := by
  have length := congrArg List.length upcoming
  rw [Cursor.length_upcoming, List.length_append] at length
  exact Nat.le_trans (Nat.le_add_left _ _) (Nat.le_of_eq length.symm)

theorem Parser.Within.upcoming_ne (h : p.Within tail) : p.cursor.upcoming ≠ tail := by
  intro all
  have length := congrArg List.length all
  rw [Cursor.length_upcoming] at length
  exact absurd h (Nat.not_le.mpr (length ▸ Nat.lt_succ_self _))

theorem Reads.upTo {a : goal.Result} (h : Reads limit goal p a q) (up : q.UpTo tail) :
    p.UpTo tail := by
  have moved := h.moved
  unfold Parser.UpTo Goal.Moved at *
  omega

theorem Parser.Within.of_reads {a : goal.Result} (within : q.Within tail)
    (h : Reads limit goal p a q) : p.Within tail :=
  Nat.le_trans within (Nat.le_of_add_right_le h.moved)

theorem Reads.within {a : goal.Result} (h : Reads limit goal p a q) (some : goal.least = 1)
    (up : q.UpTo tail) : p.Within tail := by
  have moved := h.moved
  unfold Parser.UpTo Parser.Within Goal.Moved at *
  omega

end

/-! ## What ends every expression -/

/-- A token behind an expression that nothing goes on with. -/
def Token.Closes (token : Token) : Prop :=
  token.kind = .newline ∨ token.kind = .eof ∨ token.kind = .rparen ∨ token.kind = .kwEnd ∨
    token.kind = .colon

namespace Token.Closes

variable {token : Token}

theorem following?_eq (h : token.Closes) : token.kind.following? = none := by
  rcases h with h | h | h | h | h <;> rw [h] <;> rfl

theorem noComma (h : token.Closes) : token.kind ≠ .comma := by
  rcases h with h | h | h | h | h <;> rw [h] <;> decide

theorem noAssign (h : token.Closes) : token.kind ≠ .assign := by
  rcases h with h | h | h | h | h <;> rw [h] <;> decide

theorem noArgument (h : token.Closes) : token.beginsBareArgument = false := by
  unfold beginsBareArgument
  rcases h with h | h | h | h | h <;> rw [h]

theorem head?_nil : ∀ token ∈ ([] : List Token).head?, token.Closes := nofun

end Token.Closes

/-! ## Where nothing is owed -/

/-- Tokens behind which a line may end: binary operators, what an expression follows, and a
line end. -/
def TokenKind.owes : TokenKind → Bool
  | plus | minus | times | divide | equal | less | lessEqual | greater | greaterEqual
  | assign | question | colon | lparen | newline => true
  | _ => false

/-- Tokens that an expression or a name may end with. -/
def TokenKind.settles (kind : TokenKind) : Bool :=
  !kind.owes && kind != .comma && kind != .eof

/-- Nothing is owed by the token before the cursor. -/
def Parser.Settled (p : Parser) : Prop :=
  ∃ token, p.cursor.previous? = some token ∧ token.kind.settles = true

section

variable {limit : Option Nat} {p q : Parser}

theorem TokenKind.settles_of_numeral {token : Token} {text : String} {value : Value}
    (h : token.numeral? text = some value) : token.kind.settles = true := by
  rcases Token.kind_of_numeral h with kind | kind <;> rw [kind] <;> rfl

theorem Parser.Settled.step (settles : p.token.kind.settles = true) : p.advance.Settled := by
  refine ⟨p.token, Parser.previous_advance ?_, settles⟩
  intro eof
  rw [eof] at settles
  cases settles

theorem Parser.Settled.advance {kind : TokenKind} (is : p.token.kind = kind)
    (settles : kind.settles = true) : p.advance.Settled := .step (is ▸ settles)

/-- Behind a phrase nothing is owed, unless its line has to end. -/
def Goal.LeavesSettled : (goal : Goal) → Parser → Parser → Prop
  | .continuation .., p, q => p.Settled → q.Settled
  | .statements _, _, _ => True
  | _, _, q => q.Settled

theorem Reads.settles {goal : Goal} {a : goal.Result} (h : Reads limit goal p a q) :
    goal.LeavesSettled p q := by
  induction h with
  | trueLiteral kind | falseLiteral kind | nilLiteral kind | symbol kind | string kind =>
      exact .advance kind rfl
  | number written => exact .step (TokenKind.settles_of_numeral written)
  | name named _ | selfCall named _ _ _ | parameter named _ => exact .advance named rfl
  | emptyGroup _ closing | group _ _ _ closing _ => exact .advance closing rfl
  | emptyCall _ _ closing | emptyCallAgain _ _ closing => exact .advance closing rfl
  | send _ named _ => exact .advance named rfl
  | signedNumber _ written _ ih => exact ih (.step (TokenKind.settles_of_numeral written))
  | expression _ _ _ _ ih ih' => exact ih' ih
  | longer _ _ _ _ ih ih' => exact fun _ => ih' ih
  | complete _ => exact id
  | noStatement | statement => trivial
  | lastArgument _ closing _ | lastParameter _ closing _ => exact .advance closing rfl
  | methodAlone _ _ closing _ | methodNone _ _ _ _ closing _ => exact .advance closing rfl
  | methodList _ _ _ _ _ closing _ _ | methodBare _ _ _ _ _ closing _ _ =>
      exact .advance closing rfl
  | selfCallWith _ _ _ _ _ ih | definition _ _ _ ih | assignment _ _ ih | call _ _ _ _ ih
  | callAgain _ _ _ _ ih | operator _ _ ih | sendWith _ _ _ _ ih | lastBareArgument _ _ ih
  | lastBareParameter _ _ ih => exact ih
  | ternary _ _ _ _ _ ih' | bareArgument _ _ _ _ ih' | argument _ _ _ _ ih'
  | furtherParameter _ _ _ _ ih' | bareParameter _ _ _ _ ih' => exact ih'

theorem Parser.before_advance (ne : p.token.kind ≠ .eof) :
    p.advance.cursor.before = p.token :: p.cursor.before := Cursor.before_advance ne

theorem Reads.parameter_named {node : Node} (h : Reads limit .parameter p node q) :
    p.token.kind = .identifier ∧ q.cursor.before = p.token :: p.cursor.before := by
  cases h with
  | parameter named _ => exact ⟨named, Parser.before_advance (p := p) (by simp [named])⟩

theorem Reads.parameters_named {nodes : List Node} (h : Reads limit .parameters p nodes q) :
    p.token.kind = .identifier := by
  cases h with
  | lastParameter first _ => exact first.parameter_named.1
  | furtherParameter first _ _ => exact first.parameter_named.1

theorem Reads.bareParameters_named {nodes : List Node} (h : Reads limit .bareParameters p nodes q) :
    p.token.kind = .identifier := by
  cases h with
  | lastBareParameter first _ => exact first.parameter_named.1
  | bareParameter first _ _ => exact first.parameter_named.1

end

end RubyReader
