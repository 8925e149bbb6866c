/-
# `Respelling` — the same tokens, written in another way

The tokens of a phrase may stand elsewhere and in front of another tail, on more lines, and
with signs glued to the digits behind them.  A respelling says which of this may happen:

    move, move'   tokens correspond if they stand at the same place when each is moved
    lines         lines may end where more is owed, or in front of what closes
    glues         a sign and the number behind it may be one token
    tail, tail'   what stands behind the phrase, which no expression goes on with

A parser of the respelled tokens stands to a parser of the others in one of four ways.

    Beside     the upcoming tokens are respelled
    InStep     both stand at the same token, and those behind it are respelled
    Meets      in step, or the one stands at a sign, the other at this and its digits as one
    Abreast    beside, and both or none stand behind a closing parenthesis

Parsers that are beside each other meet behind the line ends (`Beside.skipLines`), and where
nothing is owed and nothing is closed next (`Beside.meets`).  Behind a token at which they
are in step they are abreast (`InStep.take`).
-/
import RubyReader.Proofs.Reading.Extent
import RubyReader.Proofs.Token.Sign
import RubyReader.Proofs.Tree.Relocation

namespace RubyReader

/-! ## Where a line may end -/

/-- Tokens behind which a parameter without parentheses stands, the last of them first: a `def`
and its name, or further ones, a parameter and a comma. -/
inductive OwesParameter : List Token → Prop
  | first {opening name : Token} {before : List Token} : opening.kind = .kwDef →
      name.kind = .identifier → OwesParameter (name :: opening :: before)
  | further {param comma : Token} {before : List Token} : OwesParameter before →
      param.kind = .identifier → comma.kind = .comma → OwesParameter (comma :: param :: before)

/-- Where a line may end, between the tokens passed, the last of them first, and those that are
still to come. -/
inductive MayBreak : (before after : List Token) → Prop
  | start {after : List Token} : MayBreak [] after
  | owing {token : Token} {before after : List Token} : token.kind.owes = true →
      MayBreak (token :: before) after
  | comma {token : Token} {before after : List Token} : token.kind = .comma →
      ¬ OwesParameter (token :: before) → MayBreak (token :: before) after
  | closing {token : Token} {before after : List Token} :
      token.kind = .rparen ∨ token.kind = .colon → MayBreak before (token :: after)

/-! ## Respelled tokens -/

/-- How tokens may be written in another way. -/
structure Respelling where
  move : Position → Position
  move' : Position → Position
  lines : Prop
  glues : Prop
  tail : List Token
  tail' : List Token
  closes : ∀ token ∈ tail.head?, token.Closes
  closes' : ∀ token ∈ tail'.head?, token.Closes

/-- Behind tokens passed, others, and these written in another way. -/
inductive Respelled (s : Respelling) : (before tokens tokens' : List Token) → Prop
  | tail {before : List Token} : Respelled s before s.tail s.tail'
  | keep {before rest rest' : List Token} {token : Token} (place : Position) :
      s.move' place = s.move token.position → Respelled s (token :: before) rest rest' →
      Respelled s before (token :: rest) ({ token with position := place } :: rest')
  | line {before tokens tokens' : List Token} {line : Token} : s.lines → line.kind = .newline →
      MayBreak before tokens → Respelled s before tokens tokens' →
      Respelled s before tokens (line :: tokens')
  | glue {before rest rest' : List Token} {sign number : Token} {text : String}
      (place : Position) : s.glues → sign.kind.sign? = some text →
      number.kind.isNumber = true → number.signed = false →
      s.move' place = s.move sign.position → s.move' place = s.move number.position →
      Respelled s (number :: sign :: before) rest rest' →
      Respelled s before (sign :: number :: rest)
        (.new number.kind (text ++ number.literal) place :: rest')

variable {s : Respelling} {p p' : Parser}

/-! ## Parsers side by side -/

section

variable (s p p')

/-- A parser, and one of the same tokens written in another way, with as much room at least. -/
structure Beside : Prop where
  respelled : Respelled s p.cursor.before p.cursor.upcoming p'.cursor.upcoming
  scope_eq : p'.scope = p.scope
  depth_le : p'.depth ≤ p.depth

/-- The same, and both stand behind a closing parenthesis, or none does. -/
structure Abreast : Prop extends Beside s p p' where
  afterParen_eq : p'.afterParen = p.afterParen

/-- The same, and both stand at one token. -/
structure InStep : Prop extends Beside s p p' where
  token_eq : ∃ place, s.move' place = s.move p.token.position ∧
    p'.token = { p.token with position := place }
  behind : Respelled s (p.token :: p.cursor.before) p.cursor.after p'.cursor.after

/-- The same, and the second stands at a sign of the first and the digits behind it as one. -/
structure AtGlued : Prop extends Beside s p p' where
  glues : s.glues
  glued : ∃ text place, p.token.kind.sign? = some text ∧
    p.advance.token.kind.isNumber = true ∧ p.advance.token.signed = false ∧
    s.move' place = s.move p.token.position ∧ s.move' place = s.move p.advance.token.position ∧
    p'.token = .new p.advance.token.kind (text ++ p.advance.token.literal) place ∧
    Abreast s p.advance.advance p'.advance

/-- Two parsers at what is the same token, or the same two. -/
def Meets : Prop := InStep s p p' ∨ AtGlued s p p'

end

namespace Beside

theorem declare (h : Beside s p p') (name : String) :
    Beside s (p.declare name) (p'.declare name) :=
  ⟨h.respelled, by simp [h.scope_eq], h.depth_le⟩

theorem intern (h : Beside s p p') (name name' : String) :
    Beside s (p.intern name) (p'.intern name') := ⟨h.respelled, h.scope_eq, h.depth_le⟩

theorem opened (h : Beside s p p') : Beside s p.opened p'.opened :=
  ⟨h.respelled, h.scope_eq, Nat.succ_le_succ h.depth_le⟩

theorem withScope (h : Beside s p p') (scope : Names) :
    Beside s (p.withScope scope) (p'.withScope scope) := ⟨h.respelled, rfl, h.depth_le⟩

theorem isFull_eq (h : Beside s p p') {limit : Option Nat} (room : p.isFull limit = false) :
    p'.isFull limit = false := by
  cases limit with
  | none => rfl
  | some most =>
      have le := h.depth_le
      have notFull : ¬ most ≤ p.depth := by simpa [Parser.isFull] using room
      simp only [Parser.isFull, Option.any_some, decide_eq_false_iff_not]
      omega

end Beside

namespace Abreast

theorem declare (h : Abreast s p p') (name : String) :
    Abreast s (p.declare name) (p'.declare name) := ⟨h.toBeside.declare name, h.afterParen_eq⟩

theorem intern (h : Abreast s p p') (name name' : String) :
    Abreast s (p.intern name) (p'.intern name') :=
  ⟨h.toBeside.intern name name', h.afterParen_eq⟩

theorem closed (h : Abreast s p p') : Abreast s p.closed p'.closed :=
  ⟨⟨h.respelled, h.scope_eq, Nat.sub_le_sub_right h.depth_le 1⟩, h.afterParen_eq⟩

theorem withScope (h : Abreast s p p') (scope : Names) :
    Abreast s (p.withScope scope) (p'.withScope scope) :=
  ⟨h.toBeside.withScope scope, h.afterParen_eq⟩

theorem afterParen_advance (ne : p.token.kind ≠ .eof) (ne' : p'.token.kind ≠ .eof)
    (same : p'.token.kind = .rparen ↔ p.token.kind = .rparen) :
    p'.advance.afterParen = p.advance.afterParen := by
  have before : p.advance.cursor.previous? = some p.token := Parser.previous_advance ne
  have before' : p'.advance.cursor.previous? = some p'.token := Parser.previous_advance ne'
  rw [Parser.afterParen, Parser.afterParen, before, before', Option.any_some, Option.any_some,
    decide_eq_decide]
  exact same

end Abreast

/-! ## Where both stand -/

namespace InStep

theorem kind_eq (h : InStep s p p') : p'.token.kind = p.token.kind := by
  obtain ⟨place, -, token⟩ := h.token_eq
  rw [token]

theorem advance (h : InStep s p p') (ne : p.token.kind ≠ .eof) :
    Abreast s p.advance p'.advance := by
  have ne' : p'.token.kind ≠ .eof := by rwa [h.kind_eq]
  have upcoming : p.advance.cursor.upcoming = p.cursor.after := Cursor.upcoming_advance ne
  have upcoming' : p'.advance.cursor.upcoming = p'.cursor.after := Cursor.upcoming_advance ne'
  refine ⟨⟨?_, h.scope_eq, h.depth_le⟩, Abreast.afterParen_advance ne ne' (by rw [h.kind_eq])⟩
  rw [Parser.before_advance ne, upcoming, upcoming']
  exact h.behind

theorem take (h : InStep s p p') {kind : TokenKind} (is : p.token.kind = kind)
    (ne : kind ≠ .eof) :
    ∃ place, s.move' place = s.move p.token.position ∧
      p'.token = { p.token with position := place } ∧ Abreast s p.advance p'.advance := by
  obtain ⟨place, here, token⟩ := h.token_eq
  exact ⟨place, here, token, h.advance (by rwa [is])⟩

theorem pass (h : InStep s p p') {kind : TokenKind} (is : p.token.kind = kind)
    (ne : kind ≠ .eof) : p'.token.kind = kind ∧ Abreast s p.advance p'.advance :=
  ⟨h.kind_eq.trans is, h.advance (by rwa [is])⟩

end InStep

namespace Meets

theorem beside (h : Meets s p p') : Beside s p p' := h.elim (·.toBeside) (·.toBeside)

theorem inStep (h : Meets s p p') (noSign : p.token.kind.sign? = none) : InStep s p p' := by
  rcases h with inStep | ⟨-, -, text, place, signs, -⟩
  · exact inStep
  · rw [noSign] at signs
    cases signs

/-- A step over a token that is no sign. -/
theorem take (h : Meets s p p') {kind : TokenKind} (is : p.token.kind = kind)
    (other : kind.sign? = none ∧ kind ≠ .eof) :
    ∃ place, s.move' place = s.move p.token.position ∧
      p'.token = { p.token with position := place } ∧ Abreast s p.advance p'.advance :=
  (h.inStep (is ▸ other.1)).take is other.2

theorem pass (h : Meets s p p') {kind : TokenKind} (is : p.token.kind = kind)
    (other : kind.sign? = none ∧ kind ≠ .eof) :
    p'.token.kind = kind ∧ Abreast s p.advance p'.advance :=
  (h.inStep (is ▸ other.1)).pass is other.2

/-- Whether a token is of some kind both see, if that is not a sign's or a number's. -/
theorem kind_iff (h : Meets s p p') {kind : TokenKind}
    (other : kind.sign? = none ∧ kind.isNumber = false) :
    p'.token.kind = kind ↔ p.token.kind = kind := by
  rcases h with inStep | ⟨-, -, text, place, signs, isNumber, -, -, -, token, -⟩
  · rw [inStep.kind_eq]
  · have kind' : p'.token.kind = p.advance.token.kind := by rw [token]; rfl
    constructor
    · intro is
      rw [← kind', is, other.2] at isNumber
      cases isNumber
    · intro is
      rw [is, other.1] at signs
      cases signs

theorem beginsBareArgument_eq (h : Meets s p p') :
    p'.token.beginsBareArgument = p.token.beginsBareArgument := by
  rcases h with inStep | ⟨-, -, text, place, signs, isNumber, -, -, -, token, -⟩
  · obtain ⟨place, -, token⟩ := inStep.token_eq
    rw [token]
    rfl
  · have signed := signed_new signs isNumber p.advance.token.literal place
    have kind' : p'.token.kind = p.advance.token.kind := by rw [token]; rfl
    rw [← token] at signed
    rw [Token.beginsBareArgument, Token.beginsBareArgument]
    rcases TokenKind.sign_cases signs with ⟨kind, -⟩ | ⟨kind, -⟩ <;>
      rcases TokenKind.number_cases isNumber with number | number <;>
      simp [kind', number, kind, signed]

theorem precedence_eq (h : Meets s p p') : p'.token.precedence = p.token.precedence := by
  rcases h with inStep | ⟨-, -, text, place, signs, isNumber, -, -, -, token, -⟩
  · obtain ⟨place, -, token⟩ := inStep.token_eq
    rw [token]
    rfl
  · have signed := signed_new signs isNumber p.advance.token.literal place
    have kind' : p'.token.kind = p.advance.token.kind := by rw [token]; rfl
    rw [← token] at signed
    rw [Token.precedence, Token.precedence]
    rcases TokenKind.sign_cases signs with ⟨kind, -⟩ | ⟨kind, -⟩ <;>
      rcases TokenKind.number_cases isNumber with number | number <;>
      simp [kind', number, kind, signed]

theorem following?_eq_none (h : Meets s p p') (ends : p.token.kind.following? = none) :
    p'.token.kind.following? = none := by
  have noSign : p.token.kind.sign? = none := by
    cases kind : p.token.kind <;> simp_all [TokenKind.sign?, TokenKind.following?]
  rwa [(h.inStep noSign).kind_eq]

end Meets

/-! ## Where parsers that are beside each other meet -/

namespace Beside

/-- The parsers meet, or the second stands at a line end that the first does not have, or both
have come up to the tail. -/
theorem meets_or (h : Beside s p p') :
    Meets s p p' ∨
      (s.lines ∧ MayBreak p.cursor.before p.cursor.upcoming ∧ p'.token.kind = .newline ∧
        Beside s p p'.advance) ∨
      p.cursor.upcoming = s.tail ∧ p'.cursor.upcoming = s.tail' := by
  obtain ⟨respelled, scope_eq, depth_le⟩ := id h
  generalize all : p.cursor.upcoming = tokens, all' : p'.cursor.upcoming = tokens' at respelled
  cases respelled with
  | tail => exact .inr (.inr ⟨rfl, rfl⟩)
  | keep place here behind =>
      obtain ⟨current, rfl⟩ := List.cons.inj all
      obtain ⟨current', rfl⟩ := List.cons.inj all'
      subst current
      exact .inl (.inl ⟨h, ⟨place, here, current'⟩, behind⟩)
  | line lines newline breaks rest =>
      obtain ⟨current', rfl⟩ := List.cons.inj all'
      have newline' : p'.token.kind = .newline := by rw [Parser.token, current', newline]
      have ne : p'.token.kind ≠ .eof := by simp [newline']
      have upcoming' : p'.advance.cursor.upcoming = p'.cursor.after := Cursor.upcoming_advance ne
      refine .inr (.inl ⟨lines, breaks, newline', ?_, scope_eq, depth_le⟩)
      rw [all, upcoming']
      exact rest
  | @glue _ rest rest' sign number text place glues signs isNumber unsigned here here' behind =>
      obtain ⟨current, -⟩ := List.cons.inj all
      obtain ⟨current', -⟩ := List.cons.inj all'
      have token_eq : p.token = sign := current
      have ne : p.token.kind ≠ .eof := by
        rw [token_eq]
        rcases TokenKind.sign_cases signs with ⟨kind, -⟩ | ⟨kind, -⟩ <;> simp [kind]
      have step := Parser.upcoming_advance ne all
      obtain rfl : p.advance.token = number := (List.cons.inj step).1
      have glued : p'.token = .new p.advance.token.kind (text ++ p.advance.token.literal) place :=
        current'
      have kind' : p'.token.kind = p.advance.token.kind := by rw [glued]; rfl
      have ne₁ : p.advance.token.kind ≠ .eof := by
        rcases TokenKind.number_cases isNumber with kind | kind <;> simp [kind]
      have ne' : p'.token.kind ≠ .eof := by rwa [kind']
      refine .inl (.inr ⟨h, glues, text, place, token_eq ▸ signs, isNumber, unsigned,
        token_eq ▸ here, here', glued, ⟨?_, scope_eq, depth_le⟩,
        Abreast.afterParen_advance ne₁ ne' (by rw [kind'])⟩)
      rw [Parser.before_advance ne₁, Parser.before_advance ne, token_eq,
        Parser.upcoming_advance ne₁ step, Parser.upcoming_advance ne' all']
      exact behind

/-- Behind the line ends both stand at the same token, in front of the tail. -/
theorem skipLines (h : Beside s p p') (within : p.skipLines.Within s.tail) :
    Meets s p.skipLines p'.skipLines := by
  induction p' using Parser.lines_induction generalizing p with
  | stop p' other =>
      rcases h.meets_or with meets | ⟨-, -, newline, -⟩ | ⟨atTail, -⟩
      · have other' : p.token.kind ≠ .newline := by rwa [Ne, ← meets.kind_iff (by decide)]
        rwa [Parser.skipLines_of_ne other, Parser.skipLines_of_ne other']
      · exact absurd newline other
      · exact absurd atTail within.of_skipLines.upcoming_ne
  | step p' newline ih =>
      rw [Parser.skipLines_of_newline newline]
      rcases h.meets_or with meets | ⟨-, -, -, rest⟩ | ⟨atTail, -⟩
      · have newline' : p.token.kind = .newline := (meets.kind_iff (by decide)).mp newline
        obtain ⟨-, after⟩ := meets.pass newline' (by decide)
        rw [Parser.skipLines_of_newline newline'] at within ⊢
        exact ih after.toBeside within
      · exact ih rest within
      · exact absurd atTail within.of_skipLines.upcoming_ne

/-- A line may end behind what owes nothing only in front of what closes. -/
theorem closes_of_mayBreak (settled : p.Settled)
    (breaks : MayBreak p.cursor.before p.cursor.upcoming) :
    p.token.kind = .rparen ∨ p.token.kind = .colon := by
  obtain ⟨token, before, settles⟩ := settled
  generalize passed : p.cursor.before = tokens, all : p.cursor.upcoming = tokens' at breaks
  rw [Cursor.previous?, passed] at before
  cases breaks with
  | start => cases before
  | owing owes =>
      obtain rfl := Option.some.inj before
      simp [TokenKind.settles, owes] at settles
  | comma comma =>
      obtain rfl := Option.some.inj before
      simp [TokenKind.settles, comma] at settles
  | closing closes => rwa [Parser.token_of_upcoming all]

/-- Where nothing is owed the parsers meet, or both see what closes. -/
theorem look (h : Beside s p p') (settled : p.Settled) :
    Meets s p p' ∨ p.token.Closes ∧ p'.token.Closes := by
  rcases h.meets_or with meets | ⟨-, breaks, newline, -⟩ | ⟨atTail, atTail'⟩
  · exact .inl meets
  · refine .inr ⟨?_, .inl newline⟩
    rcases closes_of_mayBreak settled breaks with paren | colon
    · exact .inr (.inr (.inl paren))
    · exact .inr (.inr (.inr (.inr colon)))
  · exact .inr ⟨s.closes _ (by rw [← atTail]; rfl), s.closes' _ (by rw [← atTail']; rfl)⟩

/-- Where nothing is owed and nothing closed, the parsers meet in front of the tail. -/
theorem meets (h : Beside s p p') (settled : p.Settled) (within : p.Within s.tail)
    (opens : p.token.kind ≠ .rparen ∧ p.token.kind ≠ .colon) : Meets s p p' := by
  rcases h.meets_or with meets | ⟨-, breaks, -⟩ | ⟨atTail, -⟩
  · exact meets
  · exact absurd (closes_of_mayBreak settled breaks) (not_or.mpr opens)
  · exact absurd atTail within.upcoming_ne

theorem take (h : Beside s p p') (settled : p.Settled) (within : p.Within s.tail)
    {kind : TokenKind} (is : p.token.kind = kind)
    (other : kind.sign? = none ∧ kind ≠ .eof ∧ kind ≠ .rparen ∧ kind ≠ .colon) :
    ∃ place, s.move' place = s.move p.token.position ∧
      p'.token = { p.token with position := place } ∧ Abreast s p.advance p'.advance :=
  (h.meets settled within (is ▸ other.2.2)).take is ⟨other.1, other.2.1⟩

theorem pass (h : Beside s p p') (settled : p.Settled) (within : p.Within s.tail)
    {kind : TokenKind} (is : p.token.kind = kind)
    (other : kind.sign? = none ∧ kind ≠ .eof ∧ kind ≠ .rparen ∧ kind ≠ .colon) :
    p'.token.kind = kind ∧ Abreast s p.advance p'.advance :=
  (h.meets settled within (is ▸ other.2.2)).pass is ⟨other.1, other.2.1⟩

theorem inStep_of_endsStatement (h : Beside s p p') (settled : p.Settled)
    (within : p.Within s.tail) (ends : p.token.kind.EndsStatement) : InStep s p p' := by
  rcases ends with ends | ends | ends
  all_goals exact (h.meets settled within (by simp [ends])).inStep (by simp [ends, TokenKind.sign?])

theorem inStep_of_owesParameter (h : Beside s p p') (owes : OwesParameter p.cursor.before)
    (within : p.Within s.tail) (named : p.token.kind = .identifier) : InStep s p p' := by
  rcases h.meets_or with meets | ⟨-, breaks, -⟩ | ⟨atTail, -⟩
  · exact meets.inStep (congrArg TokenKind.sign? named)
  · generalize passed : p.cursor.before = tokens, all : p.cursor.upcoming = tokens' at breaks owes
    cases breaks with
    | start => cases owes
    | owing owing =>
        cases owes with
        | first _ name => simp [TokenKind.owes, name] at owing
        | further _ _ comma => simp [TokenKind.owes, comma] at owing
    | comma _ none => exact absurd owes none
    | closing closes =>
        rw [← Parser.token_of_upcoming all, named] at closes
        rcases closes with closes | closes <;> cases closes
  · exact absurd atTail within.upcoming_ne

/-! What a look at the next token tells behind what owes nothing -/

theorem comma_iff (h : Beside s p p') (settled : p.Settled) :
    p'.token.kind = .comma ↔ p.token.kind = .comma := by
  rcases h.look settled with meets | ⟨closes, closes'⟩
  · exact meets.kind_iff (by decide)
  · exact iff_of_false closes'.noComma closes.noComma

theorem assign_iff (h : Beside s p p') (settled : p.Settled) :
    p'.token.kind = .assign ↔ p.token.kind = .assign := by
  rcases h.look settled with meets | ⟨closes, closes'⟩
  · exact meets.kind_iff (by decide)
  · exact iff_of_false closes'.noAssign closes.noAssign

theorem beginsBareArgument_eq (h : Beside s p p') (settled : p.Settled) :
    p'.token.beginsBareArgument = p.token.beginsBareArgument := by
  rcases h.look settled with meets | ⟨closes, closes'⟩
  · exact meets.beginsBareArgument_eq
  · rw [closes.noArgument, closes'.noArgument]

/-- Where nothing goes on with an expression, nothing does. -/
theorem stops (h : Beside s p p') (settled : p.Settled) {min : Precedence}
    (stops : min < p.token.precedence → p.token.kind.following? = none)
    (lt : min < p'.token.precedence) : p'.token.kind.following? = none := by
  rcases h.look settled with meets | ⟨-, closes'⟩
  · rw [meets.precedence_eq] at lt
    exact meets.following?_eq_none (stops lt)
  · exact closes'.following?_eq

end Beside

end RubyReader
