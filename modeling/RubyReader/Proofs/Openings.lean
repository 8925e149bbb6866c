/-
# `Openings` — where a parenthesis may open

Directly behind a name a parenthesis opens a list of arguments or of parameters; behind a
token that leaves an operand open, or at the beginning of a line, it opens an expression.
It opens nowhere else in a program: not behind a literal, an `end` or another list
(`program_openings`).

    takesParen   the kinds of the tokens that a parenthesis may open directly behind
    Ready        a cursor that is at no other opening parenthesis
    Fits         a cursor that has passed no other opening parenthesis
-/
import RubyReader.Proofs.Closing
import RubyReader.Proofs.Places

namespace RubyReader

/-! ## Kinds of tokens -/

namespace TokenKind

/-- Whether an expression begins behind tokens of this kind. -/
def awaitsExpression : TokenKind → Bool
  | newline | lparen | comma | assign | question | colon => true
  | kind => kind.operator?.isSome

/-- Whether a parenthesis may open directly behind tokens of this kind. -/
def takesParen (kind : TokenKind) : Bool := kind = .identifier || kind.awaitsExpression

theorem takesParen_of_operator {kind : TokenKind} {name : String}
    (h : kind.operator? = some name) : kind.takesParen = true := by
  cases kind <;> first | rfl | cases h

theorem ne_lparen_of_operator {kind : TokenKind} {name : String}
    (h : kind.operator? = some name) : kind ≠ .lparen := by
  rintro rfl
  cases h

/-- What ends an operand takes no parenthesis, unless it is a name. -/
theorem not_takesParen {kind : TokenKind}
    (ends : kind ∈ [rparen, integer, float, string, symbol, kwTrue, kwFalse, kwNil, kwEnd]) :
    kind.takesParen = false := by
  revert kind
  decide

end TokenKind

/-! ## Opening parentheses behind a cursor -/

namespace Cursor

/-- If a parenthesis opens here, it may. -/
def Ready (c : Cursor) : Prop :=
  c.current.kind = .lparen → ∀ token ∈ c.previous?, token.kind.takesParen = true

/-- Every parenthesis that was passed opens where it may. -/
def Fits (c : Cursor) : Prop :=
  c.before.IsChain fun token before => token.kind = .lparen → before.kind.takesParen = true

variable {c : Cursor}

theorem Ready.of_ne {kind : TokenKind} (h : c.current.kind = kind) (ne : kind ≠ .lparen) :
    c.Ready := fun paren => absurd (h.symm.trans paren) ne

theorem Ready.of_previous {token : Token} (before : c.previous? = some token)
    (takes : token.kind.takesParen = true) : c.Ready := by
  rintro - other mem
  obtain rfl := Option.some.inj (before.symm.trans mem)
  exact takes

theorem Ready.of_none (before : c.previous? = none) : c.Ready := by
  rintro - token mem
  cases before.symm.trans mem

theorem Ready.of_behindName (h : c.BehindName) : c.Ready := by
  obtain ⟨name, before, named⟩ := h
  exact .of_previous before (by rw [named]; rfl)

theorem Ready.of_endsStatement (h : c.current.kind.EndsStatement) : c.Ready := by
  rcases h with kind | kind | kind <;> exact .of_ne kind (by decide)

/-- Behind a token that takes a parenthesis. -/
theorem Ready.advance {kind : TokenKind} (h : c.current.kind = kind)
    (takes : kind.takesParen = true) : c.advance.Ready := by
  subst h
  refine .of_previous (previous_advance ?_) takes
  intro eof
  rw [eof] at takes
  cases takes

theorem Ready.skipLines (h : c.Ready) : c.skipLines.Ready := by
  rcases c.previous_skipLines with same | ⟨token, before, newline⟩
  · rwa [same]
  · exact .of_previous before (by rw [newline]; rfl)

theorem Fits.advance (fits : c.Fits) (ready : c.Ready) : c.advance.Fits := by
  obtain ⟨before, current, after, ends⟩ := c
  cases after with
  | nil => exact fits
  | cons => exact List.isChain_cons.mpr ⟨fun token mem paren => ready paren token mem, fits⟩

theorem Fits.of_before (start : c.before = []) : c.Fits := by
  rw [Fits, start]
  exact .nil

/-- A token that is no opening parenthesis is passed. -/
theorem Fits.pass {kind : TokenKind} (fits : c.Fits) (h : c.current.kind = kind)
    (ne : kind ≠ .lparen) : c.advance.Fits := fits.advance (.of_ne h ne)

theorem Fits.skipLines (fits : c.Fits) : c.skipLines.Fits :=
  skipLines_keeps (motive := Fits) fits fun _ newline passed => passed.pass newline (by decide)

/-- Line ends are passed, and the token behind them. -/
theorem Fits.close {kind : TokenKind} (fits : c.Fits) (h : c.skipLines.current.kind = kind)
    (ne : kind ≠ .lparen) : c.skipLines.advance.Fits := fits.skipLines.pass h ne

end Cursor

/-! ## What every phrase keeps -/

/-- A phrase that may begin where it does has passed no parenthesis that may not open. -/
def Goal.Fits : (goal : Goal) → Parser → Parser → Prop
  | .following _ left, p, q | .continuation left _, p, q =>
    NameEnds left p → p.cursor.Fits → q.cursor.Fits
  | .method, p, q => p.cursor.BehindName → p.cursor.Fits → q.cursor.Fits
  | _, p, q => p.cursor.Ready → p.cursor.Fits → q.cursor.Fits

open Cursor (Ready) in
theorem Reads.fits {limit : Option Nat} {goal : Goal} {p q : Parser} {a : goal.Result}
    (h : Reads limit goal p a q) : goal.Fits p q := by
  induction h with
  | trueLiteral kind | falseLiteral kind | nilLiteral kind | symbol kind | string kind =>
      exact fun _ fits => fits.pass kind (by decide)
  | number written =>
      intro _ fits
      rcases Token.kind_of_numeral written with kind | kind <;> exact fits.pass kind (by decide)
  | name named _ | selfCall named _ _ _ => exact fun _ fits => fits.pass named (by decide)
  | selfCallWith named _ _ _ _ args =>
      exact fun _ fits => args (.advance named rfl) (fits.pass named (by decide))
  | emptyGroup opening closing =>
      exact fun ready fits => (fits.advance ready).close closing (by decide)
  | group opening _ _ closing inner =>
      intro ready fits
      have inside := inner (Ready.advance opening rfl).skipLines (fits.advance ready).skipLines
      exact inside.close closing (by decide)
  | definition opening named _ method =>
      intro _ fits
      exact method (.advance named) ((fits.pass opening (by decide)).pass named (by decide))
  | assignment assign _ value =>
      exact fun _ fits => value (.advance assign rfl) (fits.pass assign (by decide))
  | emptyCall after opening closing =>
      intro ends fits
      have name := ends.behindName (.inl ⟨_, _, rfl⟩) after
      exact (fits.advance (.of_behindName name)).close closing (by decide)
  | call after opening _ _ args =>
      intro ends fits
      have name := ends.behindName (.inl ⟨_, _, rfl⟩) after
      exact args (Ready.advance opening rfl).skipLines
        (fits.advance (.of_behindName name)).skipLines
  | emptyCallAgain after opening closing =>
      intro ends fits
      have name := ends.behindName (.inr ⟨_, _, _, rfl⟩) after
      exact (fits.advance (.of_behindName name)).close closing (by decide)
  | callAgain after opening _ _ args =>
      intro ends fits
      have name := ends.behindName (.inr ⟨_, _, _, rfl⟩) after
      exact args (Ready.advance opening rfl).skipLines
        (fits.advance (.of_behindName name)).skipLines
  | operator known _ right =>
      intro _ fits
      have ready := Ready.advance rfl (TokenKind.takesParen_of_operator known)
      exact right ready (fits.pass rfl (TokenKind.ne_lparen_of_operator known))
  | signedNumber _ written _ rest =>
      intro _ fits
      rcases Token.kind_of_numeral written with kind | kind <;>
        exact rest trivial (fits.pass kind (by decide))
  | send dot named _ =>
      exact fun _ fits => (fits.pass dot (by decide)).pass named (by decide)
  | sendWith dot named _ _ args =>
      intro _ fits
      exact args (.advance named rfl) ((fits.pass dot (by decide)).pass named (by decide))
  | ternary sign _ colon _ ifTrue ifFalse =>
      intro _ fits
      have first := ifTrue (.advance sign rfl) (fits.pass sign (by decide))
      exact ifFalse (.advance colon rfl) (first.close colon (by decide))
  | expression _ _ first _ leading rest =>
      exact fun ready fits => rest first.nameEnds_leading (leading ready.skipLines fits.skipLines)
  | longer _ _ first _ following rest =>
      exact fun ends fits => rest first.nameEnds_following (following ends fits)
  | complete _ => exact fun _ fits => fits
  | noStatement _ => exact fun _ fits => fits.skipLines
  | statement _ _ _ ends _ node nodes =>
      intro ready fits
      have first := node ready.skipLines fits.skipLines
      exact nodes (Ready.of_endsStatement ends).skipLines first.skipLines
  | lastBareArgument _ _ arg => exact arg
  | bareArgument _ comma _ arg args =>
      intro ready fits
      exact args (.advance comma rfl) ((arg ready fits).pass comma (by decide))
  | lastArgument _ closing arg =>
      exact fun ready fits => (arg ready fits).close closing (by decide)
  | argument _ comma _ arg args =>
      intro ready fits
      exact args (.advance comma rfl) ((arg ready fits).close comma (by decide))
  | methodAlone ends _ closing body =>
      intro _ fits
      have inside := body (Ready.of_endsStatement ends).skipLines fits.skipLines
      exact inside.pass closing (by decide)
  | methodNone opening empty ends _ closing body =>
      intro name fits
      have list := (fits.advance (.of_behindName name)).close empty (by decide)
      have inside := body (Ready.of_endsStatement ends).skipLines list.skipLines
      exact inside.pass closing (by decide)
  | methodList opening _ _ ends _ closing list body =>
      intro name fits
      have params := list (Ready.advance opening rfl).skipLines
        (fits.advance (.of_behindName name)).skipLines
      have inside := body (Ready.of_endsStatement ends).skipLines params.skipLines
      exact inside.pass closing (by decide)
  | methodBare _ _ _ ends _ closing list body =>
      intro name fits
      have params := list (.of_behindName name) fits
      have inside := body (Ready.of_endsStatement ends).skipLines params.skipLines
      exact inside.pass closing (by decide)
  | parameter named _ => exact fun _ fits => fits.pass named (by decide)
  | lastParameter _ closing param =>
      exact fun ready fits => (param ready fits).close closing (by decide)
  | furtherParameter _ comma _ param params =>
      intro ready fits
      exact params (Ready.advance comma rfl).skipLines
        ((param ready fits).close comma (by decide)).skipLines
  | lastBareParameter _ _ param => exact param
  | bareParameter _ comma _ param params =>
      intro ready fits
      exact params (.advance comma rfl) ((param ready fits).pass comma (by decide))

/-! ## The parentheses of a program -/

/-- Of two tokens in a row before the cursor the second is no parenthesis, or it may open. -/
theorem Cursor.Fits.takesParen {c : Cursor} {k : Nat} {before paren : Token} (fits : c.Fits)
    (first : c.tokens[k]? = some before) (second : c.tokens[k + 1]? = some paren)
    (passed : k + 1 < c.index) (opening : paren.kind = .lparen) :
    before.kind.takesParen = true := by
  have length : c.before.reverse.length = c.index := List.length_reverse
  have chain := List.isChain_iff_getElem.mp (List.isChain_reverse.mpr fits) k (by omega)
  rw [tokens, List.getElem?_append_left (by omega)] at first second
  rw [(List.getElem?_eq_some_iff.mp first).2, (List.getElem?_eq_some_iff.mp second).2] at chain
  exact chain opening

theorem firstEnd_le_append (tokens more : List Token) :
    firstEnd tokens ≤ firstEnd (tokens ++ more) := by
  rw [firstEnd, firstEnd, List.findIdx_append]
  split
  · exact Nat.le_refl _
  · exact Nat.le_trans List.findIdx_le_length (Nat.le_add_left _ _)

namespace Parser

variable {tokens : List Token} {scope symbols : Names} {node : Node} {q : Parser}

/-- Of the tokens of a program, up to the end of the input, a parenthesis opens only directly
behind a name, or where an expression begins: never behind a closing parenthesis, a literal
or an `end`. -/
theorem program_openings (accepted : (ofTokens tokens scope symbols).program = (.ok node, q))
    {k : Nat} {before paren : Token} (first : tokens[k]? = some before)
    (second : tokens[k + 1]? = some paren) (noEnd : k + 1 < firstEnd tokens)
    (opening : paren.kind = .lparen) :
    (before.kind = .identifier ∨ before.kind.awaitsExpression = true) ∧
      before.kind ∉ [.rparen, .integer, .float, .string, .symbol, .kwTrue, .kwFalse, .kwNil,
        .kwEnd] := by
  obtain ⟨nodes, -, reads⟩ := program_eq_ok_iff.mp accepted
  obtain ⟨ending, completed, -⟩ := Cursor.exists_tokens_ofTokens tokens
  have all : q.cursor.tokens = tokens ++ ending := reads.tokens_eq.trans completed
  have fits : q.cursor.Fits := reads.fits (.of_none Cursor.previous_ofTokens)
    (.of_before Cursor.before_ofTokens)
  have index : q.cursor.index = firstEnd (tokens ++ ending) := by
    have onward : (Cursor.ofTokens tokens).Onward q.cursor :=
      reads.onward (Goal.starts_statements .eof _)
    rw [← completed]
    exact onward.index_eq_firstEnd Cursor.before_ofTokens (reads.statements_end.elim id id)
  have takes : before.kind.takesParen = true := by
    have within : k + 1 < tokens.length := (List.getElem?_eq_some_iff.mp second).1
    refine fits.takesParen (k := k) ?_ ?_ ?_ opening
    · rwa [all, List.getElem?_append_left (by omega)]
    · rwa [all, List.getElem?_append_left within]
    · rw [index]
      exact Nat.lt_of_lt_of_le noEnd (firstEnd_le_append tokens ending)
  refine ⟨by simpa [TokenKind.takesParen] using takes, fun mem => ?_⟩
  rw [TokenKind.not_takesParen mem] at takes
  cases takes

/-- A list of parameters, a group at the beginning of a line, and a call inside a call: the
group opens behind the line end. -/
theorem program_openings_of_group :
    let tokens := (lex "def m(a)\n  (a)\nend\nm (m(1), 2)").tokens
    ∃ node q, (ofTokens tokens .empty .empty).program = (.ok node, q) ∧
      tokens[5]? = some (.new .newline "\n" ⟨1, 9⟩) ∧ tokens[6]? = some (.new .lparen "(" ⟨2, 3⟩) ∧
      6 < firstEnd tokens ∧
      TokenKind.newline ∉ [.rparen, .integer, .float, .string, .symbol, .kwTrue, .kwFalse, .kwNil,
        .kwEnd] := by
  intro tokens
  obtain ⟨node, q, accepted⟩ := exists_of_isOk
    ((ofTokens (lex "def m(a)\n  (a)\nend\nm (m(1), 2)").tokens .empty .empty).program) (by cbv)
  have first : (lex "def m(a)\n  (a)\nend\nm (m(1), 2)").tokens[5]?
      = some (.new .newline "\n" ⟨1, 9⟩) := by cbv
  have second : (lex "def m(a)\n  (a)\nend\nm (m(1), 2)").tokens[6]?
      = some (.new .lparen "(" ⟨2, 3⟩) := by cbv
  have noEnd : decide (6 < firstEnd (lex "def m(a)\n  (a)\nend\nm (m(1), 2)").tokens) = true := by
    cbv
  exact ⟨node, q, accepted, first, second, of_decide_eq_true noEnd,
    (program_openings accepted first second (of_decide_eq_true noEnd) rfl).2⟩

end Parser

end RubyReader
