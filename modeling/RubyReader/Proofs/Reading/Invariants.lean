/-
# `Invariants` — what every reading keeps

Reading a phrase leaves the tokens as they are, never goes back, and closes
as many expressions as it opens.  And a parenthesized argument list can only
follow a name: whatever can still take one ends with its name, or with a
closing parenthesis (`NameEnds`).
-/
import RubyReader.Proofs.Reading.Complete

namespace RubyReader

variable {limit : Option Nat} {goal : Goal} {p q : Parser}

namespace Token

variable {token : Token} {text : String} {value : Value}

theorem kind_of_numeral (h : token.numeral? text = some value) :
    token.kind = .integer ∨ token.kind = .float := by
  unfold numeral? at h
  split at h
  · rename_i integer
    exact Or.inl integer
  · rename_i float
    exact Or.inr float
  · cases h

theorem ne_eof_of_numeral (h : token.numeral? text = some value) : token.kind ≠ .eof := by
  rcases kind_of_numeral h with kind | kind <;> simp [kind]

theorem leading?_of_numeral (h : token.numeral? text = some value) :
    token.kind.leading? = some .number := by
  rcases kind_of_numeral h with kind | kind <;> rw [kind] <;> rfl

theorem following?_of_numeral (h : token.numeral? text = some value) :
    token.kind.following? = some .signedNumber := by
  rcases kind_of_numeral h with kind | kind <;> rw [kind] <;> rfl

end Token

theorem TokenKind.ne_eof_of_operator {kind : TokenKind} {name : String}
    (h : kind.operator? = some name) : kind ≠ .eof := by
  rintro rfl
  cases h

/-- Reading changes none of the tokens. -/
theorem Reads.tokens_eq {a : goal.Result} (h : Reads limit goal p a q) :
    q.cursor.tokens = p.cursor.tokens := by
  induction h <;> simp_all

/-- Reading leaves as many expressions open as it found. -/
theorem Reads.depth_eq {a : goal.Result} (h : Reads limit goal p a q) : q.depth = p.depth := by
  induction h <;> simp_all

/-- Statements are read up to their terminator, or up to the end of the input. -/
theorem Reads.statements_end {terminator : TokenKind} {p q : Parser} {nodes : List Node} :
    Reads limit (.statements terminator) p nodes q →
      q.token.kind = terminator ∨ q.token.kind = .eof
  | .noStatement ends => ends
  | .statement _ _ _ _ rest => rest.statements_end

/-! ## What can take an argument list ends with a name -/

/-- Behind a node that could take arguments in parentheses stands its name, or
a closing parenthesis. -/
def NameEnds : Node → Parser → Prop
  | .identifier name position, q =>
      q.afterParen = true ∨ q.cursor.previous? = some name.token ∧
        name.token.kind = .identifier ∧ name.token.position = position
  | .call _ _ [] _, q =>
      q.afterParen = true ∨ ∃ token, q.cursor.previous? = some token ∧ token.kind = .identifier
  | _, _ => True

theorem Parser.afterParen_advance {p : Parser} (h : p.token.kind = .rparen) :
    p.advance.afterParen = true := by
  have before : p.cursor.advance.previous? = some p.token := previous_advance (by simp [h])
  simp [afterParen, before, h]

theorem NameEnds.of_afterParen {node : Node} (h : q.afterParen = true) : NameEnds node q := by
  unfold NameEnds
  split
  · exact Or.inl h
  · exact Or.inl h
  · trivial

theorem NameEnds.of_args {receiver : Node} {message : Symbol} {args : List Node}
    {position : Position} (h : args ≠ []) : NameEnds (.call receiver message args position) q := by
  cases args with
  | nil => exact absurd rfl h
  | cons => trivial

theorem Reads.arguments_ne_nil {args : List Node} (h : Reads limit .arguments p args q) :
    args ≠ [] := by
  cases h <;> exact List.cons_ne_nil _ _

theorem Reads.bareArguments_ne_nil {args : List Node} (h : Reads limit .bareArguments p args q) :
    args ≠ [] := by
  cases h <;> exact List.cons_ne_nil _ _

theorem Reads.nameEnds_leading {form : LeadingForm} {node : Node}
    (h : Reads limit (.leading form) p node q) : NameEnds node q := by
  have behind (named : p.token.kind = .identifier) :
      p.cursor.advance.previous? = some p.token := Parser.previous_advance (by simp [named])
  cases h with
  | name named _ => exact Or.inr ⟨behind named, named, rfl⟩
  | selfCall named _ _ _ => exact Or.inr ⟨p.token, behind named, named⟩
  | selfCallWith _ _ _ _ args => exact .of_args args.bareArguments_ne_nil
  | emptyGroup _ _ => trivial
  | group _ _ _ closing => exact .of_afterParen (Parser.afterParen_advance closing)
  | _ => trivial

theorem Reads.nameEnds_following {form : FollowingForm} {left node : Node}
    (h : Reads limit (.following form left) p node q) : NameEnds node q := by
  cases h with
  | emptyCall _ _ closing => exact .of_afterParen (Parser.afterParen_advance closing)
  | call _ _ _ args => exact .of_args args.arguments_ne_nil
  | emptyCallAgain _ _ closing => exact .of_afterParen (Parser.afterParen_advance closing)
  | callAgain _ _ _ args => exact .of_args args.arguments_ne_nil
  | send _ named _ =>
      exact Or.inr ⟨p.advance.token, Parser.previous_advance (by simp [named]), named⟩
  | sendWith _ _ _ args => exact .of_args args.bareArguments_ne_nil
  | _ => trivial

end RubyReader
