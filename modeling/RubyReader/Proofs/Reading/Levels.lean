/-
# `Levels` — parentheses come in pairs

An opening parenthesis leads one level down, and a closing one back up.  What a phrase
passes ends at the level where it began; only the lists that end with their closing
parenthesis go one level up (`Reads.level_eq`).  So an expression inside parentheses that
are balanced stops in front of the one that closes them (`Balanced.exists_rest`).
-/
import Mathlib.Data.List.Infix
import RubyReader.Proofs.Reading.Invariants

namespace RubyReader

/-! ## Levels of tokens -/

/-- How many levels a token of this kind leads down. -/
def TokenKind.nesting : TokenKind → Int
  | lparen => 1
  | rparen => -1
  | _ => 0

theorem TokenKind.flat_of_operator {kind : TokenKind} {name : String}
    (h : kind.operator? = some name) : kind.nesting = 0 ∧ kind ≠ .eof := by
  cases kind <;> first | exact ⟨rfl, by decide⟩ | cases h

/-- How many levels tokens lead down. -/
def nesting : List Token → Int
  | [] => 0
  | token :: rest => token.kind.nesting + nesting rest

@[simp] theorem nesting_nil : nesting [] = 0 := rfl

@[simp] theorem nesting_cons (token : Token) (rest : List Token) :
    nesting (token :: rest) = token.kind.nesting + nesting rest := rfl

@[simp] theorem nesting_append (tokens rest : List Token) :
    nesting (tokens ++ rest) = nesting tokens + nesting rest := by
  induction tokens with
  | nil => exact (Int.zero_add _).symm
  | cons token more ih => rw [List.cons_append, nesting_cons, ih, nesting_cons, Int.add_assoc]

@[simp] theorem nesting_reverse (tokens : List Token) :
    nesting tokens.reverse = nesting tokens := by
  induction tokens with
  | nil => rfl
  | cons token rest ih =>
      rw [List.reverse_cons, nesting_append, ih, nesting_cons, nesting_cons, nesting_nil,
        Int.add_zero, Int.add_comm]

/-- Tokens of which each closing parenthesis closes one of them that is open, and that leave
none open. -/
structure Balanced (tokens : List Token) : Prop where
  /-- no more are closed than have been opened -/
  nonneg : ∀ front, front <+: tokens → 0 ≤ nesting front
  /-- in the end none is open -/
  level : nesting tokens = 0

instance (tokens : List Token) : Decidable (Balanced tokens) :=
  decidable_of_iff ((∀ front ∈ tokens.inits, 0 ≤ nesting front) ∧ nesting tokens = 0)
    ⟨fun h => ⟨fun front begins => h.1 front ((List.mem_inits _ _).mpr begins), h.2⟩,
      fun h => ⟨fun front mem => h.nonneg front ((List.mem_inits _ _).mp mem), h.level⟩⟩

namespace Balanced

variable {tokens front rest tail : List Token} {closing : Token}

/-- Behind tokens that end at the level where they begin the rest is balanced. -/
theorem of_append (h : Balanced (front ++ rest)) (level : nesting front = 0) : Balanced rest := by
  refine ⟨fun passed begins => ?_, ?_⟩
  · have below := h.nonneg (front ++ passed) ((List.prefix_append_right_inj front).mpr begins)
    rwa [nesting_append, level, Int.zero_add] at below
  · have whole := h.level
    rwa [nesting_append, level, Int.zero_add] at whole

/-- What ends at the level where it begins, and does not end the input, does not get beyond
the parenthesis that closes. -/
theorem exists_rest (h : Balanced tokens) (closes : closing.kind = .rparen)
    (ends : ∀ token ∈ tail.head?, token.kind = .eof) (level : nesting front = 0)
    (goOn : ∀ token ∈ front, token.kind ≠ .eof)
    (all : tokens ++ closing :: tail = front ++ rest) :
    ∃ inside, tokens = front ++ inside ∧ rest = inside ++ closing :: tail := by
  rcases List.append_eq_append_iff.mp all with ⟨beyond, passed, split⟩ | ⟨inside, passed, split⟩
  · -- the closing parenthesis alone leads up, and behind it the input ends
    rcases beyond with _ | ⟨first, beyond⟩
    · exact ⟨[], by rw [passed]; simp, split.symm⟩
    · obtain ⟨rfl, behind⟩ := List.cons.inj split
      rcases beyond with _ | ⟨second, beyond⟩
      · rw [passed, nesting_append, h.level, nesting_cons, closes] at level
        cases level
      · refine absurd (ends second (by rw [behind]; rfl)) (goOn second ?_)
        rw [passed]
        simp
  · exact ⟨inside, passed, split⟩

theorem head_ne (h : Balanced (closing :: rest)) : closing.kind ≠ .rparen := by
  intro closes
  have first := h.nonneg [closing] (by simp)
  rw [nesting_cons, closes] at first
  exact absurd first (by decide)

end Balanced

/-! ## Levels of parsers -/

namespace Parser

/-- The level that a parser has got to. -/
def level (p : Parser) : Int := nesting p.cursor.before

variable {p : Parser} {kind : TokenKind} (name : String) (scope : Names)

theorem level_advance (h : p.token.kind = kind) (ne : kind ≠ .eof) :
    p.advance.level = p.level + kind.nesting := by
  rw [level, cursor_advance, Cursor.before_advance (by rwa [← h] at ne), nesting_cons,
    Int.add_comm, ← h]
  rfl

theorem level_open (h : p.token.kind = .lparen) : p.advance.level = p.level + 1 :=
  level_advance h (by decide)

theorem level_close (h : p.token.kind = .rparen) : p.advance.level = p.level - 1 :=
  level_advance h (by decide)

/-- A step over a token that is no parenthesis. -/
theorem level_flat (h : p.token.kind = kind) (flat : kind.nesting = 0 ∧ kind ≠ .eof) :
    p.advance.level = p.level := by
  rw [level_advance h flat.2, flat.1, Int.add_zero]

@[simp] theorem level_intern : (p.intern name).level = p.level := rfl
@[simp] theorem level_declare : (p.declare name).level = p.level := rfl
@[simp] theorem level_opened : p.opened.level = p.level := rfl
@[simp] theorem level_closed : p.closed.level = p.level := rfl
@[simp] theorem level_withScope : (p.withScope scope).level = p.level := rfl

@[simp] theorem level_skipLines : p.skipLines.level = p.level := by
  induction p using lines_induction with
  | stop p other => rw [skipLines_of_ne other]
  | step p newline ih =>
      rw [skipLines_of_newline newline, ih, level_advance newline (by decide)]
      exact Int.add_zero _

end Parser

/-! ## Levels of phrases -/

/-- How many levels a phrase leads up. -/
def Goal.closes : Goal → Int
  | .arguments | .parameters => 1
  | _ => 0

open RubyReader.Parser (level_open level_close level_flat level_skipLines) in
/-- A phrase ends at the level where it begins, and a list in parentheses one up. -/
theorem Reads.level_eq {limit : Option Nat} {goal : Goal} {p q : Parser} {a : goal.Result}
    (h : Reads limit goal p a q) : q.level = p.level - goal.closes := by
  induction h with
  | trueLiteral kind | falseLiteral kind | nilLiteral kind | symbol kind | string kind =>
      simp [Goal.closes, level_flat kind (by decide)]
  | number written =>
      rcases Token.kind_of_numeral written with kind | kind <;>
        simp [Goal.closes, level_flat kind (by decide)]
  | name named _ | selfCall named _ _ _ => simp [Goal.closes, level_flat named (by decide)]
  | selfCallWith named _ _ _ _ args =>
      simpa [Goal.closes, level_flat named (by decide)] using args
  | emptyGroup opening closing | emptyCallAgain _ opening closing =>
      simp [Goal.closes, level_open opening, level_close closing]
  | group opening _ _ closing inner =>
      simp only [Goal.closes, Int.sub_zero, level_skipLines, level_open opening] at inner
      simp [Goal.closes, level_close closing, inner]
  | definition opening named _ method =>
      simpa [Goal.closes, level_flat named (by decide), level_flat opening (by decide)] using method
  | assignment assign _ value =>
      simpa [Goal.closes, level_flat assign (by decide)] using value
  | @emptyCall p _ _ _ opening closing =>
      show p.advance.skipLines.advance.level = p.level - 0
      simp [level_open opening, level_close closing]
  | @call p q _ _ _ _ opening _ _ args =>
      have args : q.level = p.advance.skipLines.level - 1 := args
      simpa [Goal.closes, level_open opening] using args
  | callAgain _ opening _ _ args => simpa [Goal.closes, level_open opening] using args
  | @operator p q _ _ _ known _ right =>
      have right : q.level = p.advance.level - 0 := right
      have flat := level_flat rfl (TokenKind.flat_of_operator known)
      simpa [Goal.closes, flat] using right
  | @signedNumber p q _ _ _ _ written _ rest =>
      have rest : q.level = p.advance.level - 0 := rest
      rcases Token.kind_of_numeral written with kind | kind <;>
        simpa [Goal.closes, level_flat kind (by decide)] using rest
  | send dot named _ =>
      simp [Goal.closes, level_flat named (by decide), level_flat dot (by decide)]
  | sendWith dot named _ _ args =>
      simpa [Goal.closes, level_flat named (by decide), level_flat dot (by decide)] using args
  | ternary sign _ colon _ ifTrue ifFalse =>
      simp only [Goal.closes, Int.sub_zero, level_flat sign (by decide)] at ifTrue
      simpa [Goal.closes, level_flat colon (by decide), ifTrue] using ifFalse
  | expression _ _ _ _ leading rest =>
      simp only [Goal.closes, Int.sub_zero] at leading
      simpa [Goal.closes, leading] using rest
  | longer _ _ _ _ following rest =>
      simp only [Goal.closes, Int.sub_zero] at following
      simpa [Goal.closes, following] using rest
  | complete _ | noStatement _ => simp [Goal.closes]
  | statement _ _ _ _ _ node nodes =>
      simp only [Goal.closes, Int.sub_zero] at node
      simpa [Goal.closes, node] using nodes
  | lastBareArgument _ _ arg => exact arg
  | bareArgument _ comma _ arg args =>
      simp only [Goal.closes, Int.sub_zero] at arg
      simpa [Goal.closes, level_flat comma (by decide), arg] using args
  | lastArgument _ closing arg =>
      simp only [Goal.closes, Int.sub_zero] at arg
      simp [Goal.closes, level_close closing, arg]
  | argument _ comma _ arg args =>
      simp only [Goal.closes, Int.sub_zero] at arg
      simpa [Goal.closes, level_flat comma (by decide), arg] using args
  | methodAlone _ _ closing body =>
      simpa [Goal.closes, level_flat closing (by decide)] using body
  | @methodNone p q _ opening empty _ _ closing body =>
      have body : q.level = p.advance.skipLines.advance.skipLines.level - 0 := body
      simpa [Goal.closes, level_open opening, level_close empty, level_flat closing (by decide)]
        using body
  | @methodList p p₁ q _ _ opening _ _ _ _ closing list body =>
      have list : p₁.level = p.advance.skipLines.level - 1 := list
      simp only [level_skipLines, level_open opening] at list
      simpa [Goal.closes, level_flat closing (by decide), list] using body
  | methodBare _ _ _ _ _ closing list body =>
      simp only [Goal.closes, Int.sub_zero] at list
      simpa [Goal.closes, level_flat closing (by decide), list] using body
  | @parameter p named _ =>
      show p.advance.level = p.level - 0
      simp [level_flat named (by decide)]
  | lastParameter _ closing param =>
      simp only [Goal.closes, Int.sub_zero] at param
      simp [Goal.closes, level_close closing, param]
  | furtherParameter _ comma _ param params =>
      simp only [Goal.closes, Int.sub_zero] at param
      simpa [Goal.closes, level_flat comma (by decide), param] using params
  | lastBareParameter _ _ param => exact param
  | bareParameter _ comma _ param params =>
      simp only [Goal.closes, Int.sub_zero] at param
      simpa [Goal.closes, level_flat comma (by decide), param] using params

end RubyReader
