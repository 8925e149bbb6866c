/-
# `Crossing` — a message that loses the parentheses around its arguments

Two inputs are the same up to a dot and the name behind it.  Then one has arguments in
parentheses, the other the same arguments without, and both end there (`Site`).  A phrase
that is read in the first input from in front of the dot has, in the second,

    ended there too, if it ends in front of the dot     (`Site.Twins.follow`)
    the same result, and reaches the end of the input   (`Site.Again`)

and nothing else can happen, apart from the message itself, which alone ends at the opening
parenthesis: it is put together with the arguments that continue it (`Site.Twins.sent`).
Whatever is open around the message ends with it, since behind the closing parenthesis there
is nothing left.
-/
import RubyReader.Proofs.Reading.Agreement
import RubyReader.Proofs.Reading.Bare

namespace RubyReader

open Grammar (splitFirst)

theorem TokenKind.other_of_operator {kind : TokenKind} {name : String}
    (h : kind.operator? = some name) : kind ≠ .dot ∧ kind ≠ .eof := by
  cases kind <;> first | exact ⟨by decide, by decide⟩ | cases h

/-- Where two inputs part: a message with arguments, up to the end of the input. -/
structure Site where
  front : List Token
  dot : Token
  name : Token
  opening : Token
  args : List Token
  closing : Token
  /-- behind the closing parenthesis -/
  tail : List Token
  /-- behind the arguments without parentheses -/
  tail' : List Token
  isDot : dot.kind = .dot
  named : name.kind = .identifier
  opens : opening.kind = .lparen
  closes : closing.kind = .rparen
  list : ArgumentTokens args
  ends : Ending tail
  ends' : Ending tail'

namespace Site

def wrapped (s : Site) : List Token :=
  s.front ++ s.dot :: s.name :: s.opening :: (s.args ++ s.closing :: s.tail)

def bare (s : Site) : List Token := s.front ++ s.dot :: s.name :: (s.args ++ s.tail')

def place (s : Site) : Nat := s.front.length

/-! ## In front of the dot -/

/-- Two parsers at the same token of both inputs, not beyond the dot. -/
structure Twins (s : Site) (p p' : Parser) : Prop where
  agree : p.Agree (s.place + 1) p'
  le : p.cursor.index ≤ s.place
  tokens_eq : p.cursor.tokens = s.wrapped
  tokens_eq' : p'.cursor.tokens = s.bare

namespace Twins

variable {s : Site} {p p' : Parser} {kind : TokenKind}

theorem not_lt (twins : s.Twins p p') : ¬ s.place < p.cursor.index := Nat.not_lt.mpr twins.le

theorem token_eq (twins : s.Twins p p') : p'.token = p.token :=
  twins.agree.cursor.current_eq (Nat.le_succ_of_le twins.le)

theorem afterParen_eq (twins : s.Twins p p') : p'.afterParen = p.afterParen := by
  rw [Parser.afterParen, Parser.afterParen,
    twins.agree.cursor.previous_eq (Nat.le_succ_of_le twins.le)]

theorem isFull_eq (twins : s.Twins p p') (limit : Option Nat) :
    p'.isFull limit = p.isFull limit := by
  rw [Parser.isFull, Parser.isFull, twins.agree.depth_eq]

/-- At the dot, in the input with the parentheses. -/
theorem upcoming_eq (twins : s.Twins p p') (here : p.cursor.index = s.place) :
    p.cursor.upcoming = s.dot :: s.name :: s.opening :: (s.args ++ s.closing :: s.tail) := by
  rw [← Cursor.drop_index, twins.tokens_eq, here]
  exact List.drop_left

theorem upcoming_eq' (twins : s.Twins p p') (here : p.cursor.index = s.place) :
    p'.cursor.upcoming = s.dot :: s.name :: (s.args ++ s.tail') := by
  rw [← Cursor.drop_index, twins.tokens_eq', twins.agree.cursor.index_eq, here]
  exact List.drop_left

/-- A step from in front of the dot. -/
theorem advance_of_ne (twins : s.Twins p p') (noEnd : p.token.kind ≠ .eof)
    (ne : p.cursor.index ≠ s.place) : s.Twins p.advance p'.advance where
  agree := twins.agree.advance noEnd (Nat.le_succ_of_le twins.le)
  le := by
    rw [Parser.cursor_advance, Cursor.index_advance noEnd]
    exact Nat.lt_of_le_of_ne twins.le ne
  tokens_eq := Cursor.tokens_advance.trans twins.tokens_eq
  tokens_eq' := Cursor.tokens_advance.trans twins.tokens_eq'

theorem advance (twins : s.Twins p p') (h : p.token.kind = kind)
    (other : kind ≠ .dot ∧ kind ≠ .eof) : s.Twins p.advance p'.advance := by
  refine twins.advance_of_ne (by rw [h]; exact other.2) fun here => other.1 ?_
  rw [← h, Parser.token_of_upcoming (twins.upcoming_eq here)]
  exact s.isDot

theorem skipLines (twins : s.Twins p p') : s.Twins p.skipLines p'.skipLines :=
  Parser.skipLines_both (fun _ _ twins => by rw [twins.token_eq])
    (fun _ _ twins newline => twins.advance newline (by decide)) twins

theorem intern (twins : s.Twins p p') (name : String) :
    s.Twins (p.intern name) (p'.intern name) :=
  ⟨twins.agree.intern name, twins.le, twins.tokens_eq, twins.tokens_eq'⟩

theorem declare (twins : s.Twins p p') (name : String) :
    s.Twins (p.declare name) (p'.declare name) :=
  ⟨twins.agree.declare name, twins.le, twins.tokens_eq, twins.tokens_eq'⟩

theorem opened (twins : s.Twins p p') : s.Twins p.opened p'.opened :=
  ⟨twins.agree.enter (.expression .lowest), twins.le, twins.tokens_eq, twins.tokens_eq'⟩

theorem withScope (twins : s.Twins p p') (scope : Names) :
    s.Twins (p.withScope scope) (p'.withScope scope) :=
  ⟨⟨twins.agree.cursor, rfl, twins.agree.symbols_eq, twins.agree.depth_eq⟩, twins.le,
    twins.tokens_eq, twins.tokens_eq'⟩

end Twins

/-! ## At the end of both inputs -/

/-- Two parsers at the end of both inputs, with the same variables. -/
structure Finished (q q' : Parser) : Prop where
  eof : q.token.kind = .eof
  eof' : q'.token.kind = .eof
  scope_eq : q'.scope = q.scope

namespace Finished

variable {q q' : Parser} {kind : TokenKind}

theorem skipLines_eq (done : Finished q q') : q.skipLines = q :=
  Parser.skipLines_of_ne (by rw [done.eof]; decide)

theorem skipLines_eq' (done : Finished q q') : q'.skipLines = q' :=
  Parser.skipLines_of_ne (by rw [done.eof']; decide)

theorem kind_ne (done : Finished q q') (ne : kind ≠ .eof) : q.skipLines.token.kind ≠ kind := by
  rw [done.skipLines_eq, done.eof]
  exact ne.symm

end Finished

/-! ## Phrases that reach the end of the input -/

/-- A phrase that begins in front of the dot and does not end there is read in the second
input as well, with the same result, up to the end of both. -/
def Again (s : Site) (limit : Option Nat) (goal : Goal) (p : Parser) (a : goal.Result)
    (q : Parser) : Prop :=
  ∀ p', s.Twins p p' → s.place < q.cursor.index → ∃ q', Reads limit goal p' a q' ∧ Finished q q'

/-- So does every phrase, but a message may also be the one at the dot. -/
def Reopens (s : Site) (limit : Option Nat) :
    (goal : Goal) → Parser → goal.Result → Parser → Prop
  | .following .send left, p, node, q =>
    p.cursor.index = s.place ∨ s.Again limit (.following .send left) p node q
  | goal, p, a, q => s.Again limit goal p a q

variable {s : Site} {limit : Option Nat} {goal : Goal} {p p' q : Parser}

theorem Reopens.cases {form : FollowingForm} {left node : Node}
    (h : s.Reopens limit (.following form left) p node q) :
    form = .send ∧ p.cursor.index = s.place ∨ s.Again limit (.following form left) p node q := by
  cases form with
  | send => exact h.imp (fun here => ⟨rfl, here⟩) id
  | _ => exact .inr h

/-- A phrase ends in front of the dot, or reaches the end of the input, in both inputs. -/
theorem Twins.follow {a : goal.Result} (twins : s.Twins p p') (h : Reads limit goal p a q)
    (starts : goal.Starts p.cursor) (again : s.Again limit goal p a q) :
    (∃ q', Reads limit goal p' a q' ∧ s.Twins q q') ∨
      ∃ q', Reads limit goal p' a q' ∧ Finished q q' := by
  by_cases le : q.cursor.index ≤ s.place
  · obtain ⟨q', found, behind⟩ := Parser.read_agree starts (Parser.read_eq_ok_iff.mpr h)
      (Nat.le_succ_of_le le) twins.agree
    have reads := Parser.read_eq_ok_iff.mp found
    exact .inl ⟨q', reads, behind, le, h.tokens_eq.trans twins.tokens_eq,
      reads.tokens_eq.trans twins.tokens_eq'⟩
  · exact .inr (again p' twins (Nat.not_le.mp le))

/-- At the dot both inputs have the dot and the name, and then part. -/
theorem Twins.at_dot (twins : s.Twins p p') (here : p.cursor.index = s.place) :
    p.token = s.dot ∧ p.advance.token = s.name ∧ p'.advance.token = s.name ∧
      p.advance.advance.cursor.upcoming = s.opening :: (s.args ++ s.closing :: s.tail) ∧
      p'.advance.advance.cursor.upcoming = s.args ++ s.tail' := by
  have upcoming := twins.upcoming_eq here
  have upcoming' := twins.upcoming_eq' here
  have dot : p.token = s.dot := Parser.token_of_upcoming upcoming
  have noEnd : s.dot.kind ≠ .eof := by rw [s.isDot]; decide
  have noEnd' : s.name.kind ≠ .eof := by rw [s.named]; decide
  have behind := Parser.upcoming_advance (by rwa [dot]) upcoming
  have behind' := Parser.upcoming_advance (by rwa [twins.token_eq, dot]) upcoming'
  have name : p.advance.token = s.name := Parser.token_of_upcoming behind
  have name' : p'.advance.token = s.name := Parser.token_of_upcoming behind'
  exact ⟨dot, name, name', Parser.upcoming_advance (p := p.advance) (by rwa [name]) behind,
    Parser.upcoming_advance (p := p'.advance) (by rwa [name']) behind'⟩

/-- The message at the dot is put together with the arguments that continue it. -/
theorem Twins.sent {min : Precedence} {left longer node : Node} {p₁ : Parser}
    (twins : s.Twins p p') (here : p.cursor.index = s.place) (lt : min < p.token.precedence)
    (first : Reads limit (.following .send left) p longer p₁)
    (rest : Reads limit (.continuation longer min) p₁ node q) :
    ∃ q', Reads limit (.continuation left min) p' node q' ∧ Finished q q' := by
  obtain ⟨dot, name, name', further, further'⟩ := twins.at_dot here
  have opens : p.advance.advance.token.kind = .lparen := by
    rw [Parser.token_of_upcoming further, s.opens]
  have inside := Parser.upcoming_advance (p := p.advance.advance) (by rw [opens]; decide) further
  cases first with
  | send _ _ _ =>
      have named' : p'.advance.token.kind = .identifier := by rw [name', s.named]
      have below : min < .call := by
        have tight : Precedence.rank min < p.token.precedence.rank := lt
        rw [Token.precedence, dot, s.isDot] at tight
        exact Nat.lt_trans tight (by decide : Precedence.dot.rank < Precedence.call.rank)
      obtain ⟨args, q', rfl, eof, list, eof', scope⟩ :=
        rest.call_reopened (p'.advance.advance.intern p'.advance.token.literal) s.closes
          s.ends below opens s.list inside s.ends' further' twins.agree.scope_eq
          twins.agree.depth_eq
      have dot' : p'.token.kind = .dot := by rw [twins.token_eq, dot, s.isDot]
      have sent : Reads limit (.following .send left) p' _ q' :=
        .sendWith dot' named' (s.list.beginsBareArgument further') list
      rw [twins.token_eq, name', ← name] at sent
      exact ⟨q', .longer (by rwa [twins.token_eq]) (by rw [dot']; rfl) sent
        (.complete_of_eof eof'), eof, eof', scope⟩
  | sendWith _ _ begins _ =>
      rw [Token.beginsBareArgument, opens] at begins
      cases begins

/-- A phrase with a closing parenthesis behind it ends in front of the dot. -/
theorem Twins.not_lt_of_paren {a : goal.Result} (twins : s.Twins p p')
    (inner : Reads limit goal p a q) (starts : goal.Starts p.cursor)
    (again : s.Again limit goal p a q) (closing : q.skipLines.token.kind = .rparen) :
    ¬ s.place < q.skipLines.advance.cursor.index := by
  rcases twins.follow inner starts again with ⟨q', -, there⟩ | ⟨q', -, done⟩
  · exact (there.skipLines.advance closing (by decide)).not_lt
  · exact absurd closing (done.kind_ne (by decide))

/-- A body with its `end` behind it ends in front of the dot. -/
theorem Twins.not_lt_of_end {body : List Node} (twins : s.Twins p p')
    (inner : Reads limit (.statements .kwEnd) p body q)
    (again : s.Again limit (.statements .kwEnd) p body q) (closing : q.token.kind = .kwEnd) :
    ¬ s.place < q.advance.cursor.index := by
  rcases twins.follow inner trivial again with ⟨q', -, there⟩ | ⟨q', -, done⟩
  · exact (there.advance closing (by decide)).not_lt
  · rw [done.eof] at closing
    cases closing

/-- Parameters, with a body and its `end` behind them, end in front of the dot, and so does the
body. -/
theorem Twins.not_lt_of_body {params : goal.Result} {body : List Node} {p₁ : Parser}
    (twins : s.Twins p p') (list : Reads limit goal p params p₁) (starts : goal.Starts p.cursor)
    (again : s.Again limit goal p params p₁)
    (inner : Reads limit (.statements .kwEnd) p₁.skipLines body q)
    (again' : s.Again limit (.statements .kwEnd) p₁.skipLines body q)
    (closing : q.token.kind = .kwEnd) : ¬ s.place < q.advance.cursor.index := by
  rcases twins.follow list starts again with ⟨q', -, there⟩ | ⟨q', -, done⟩
  · exact there.skipLines.not_lt_of_end inner again' closing
  · rw [done.skipLines_eq] at inner
    obtain ⟨-, rfl⟩ := inner.statements_eq done.eof
    rw [done.eof] at closing
    cases closing

/-- Between a phrase and what follows it stands a token: the phrase ends in front of the dot. -/
theorem Twins.follow_of_kind {a : goal.Result} {kind : TokenKind} (twins : s.Twins p p')
    (inner : Reads limit goal p a q) (starts : goal.Starts p.cursor)
    (again : s.Again limit goal p a q) (next : q.token.kind = kind) (ne : kind ≠ .eof) :
    ∃ q', Reads limit goal p' a q' ∧ s.Twins q q' := by
  rcases twins.follow inner starts again with there | ⟨q', -, done⟩
  · exact there
  · rw [done.eof] at next
    exact absurd next.symm ne

theorem Twins.follow_of_lines {a : goal.Result} {kind : TokenKind} (twins : s.Twins p p')
    (inner : Reads limit goal p a q) (starts : goal.Starts p.cursor)
    (again : s.Again limit goal p a q) (next : q.skipLines.token.kind = kind) (ne : kind ≠ .eof) :
    ∃ q', Reads limit goal p' a q' ∧ s.Twins q q' := by
  rcases twins.follow inner starts again with there | ⟨q', -, done⟩
  · exact there
  · exact absurd next (done.kind_ne ne)

end Site

open Site (Finished) in
/-- Every phrase that begins in front of the dot and does not end there reaches the end of the
input, in both inputs, unless it is the message at the dot. -/
theorem Reads.reopens (s : Site) {limit : Option Nat} {goal : Goal} {p q : Parser}
    {a : goal.Result} (h : Reads limit goal p a q) : s.Reopens limit goal p a q := by
  induction h with
  -- what has no phrase inside it ends in front of the dot
  | trueLiteral kind | falseLiteral kind | nilLiteral kind | symbol kind | string kind =>
      intro p' twins beyond
      exact absurd beyond (twins.advance kind (by decide)).not_lt
  | number written =>
      intro p' twins beyond
      rcases Token.kind_of_numeral written with kind | kind <;>
        exact absurd beyond (twins.advance kind (by decide)).not_lt
  | name named _ | selfCall named _ _ _ | parameter named _ =>
      intro p' twins beyond
      exact absurd beyond (twins.advance named (by decide)).not_lt
  | emptyGroup opening closing | emptyCall _ opening closing | emptyCallAgain _ opening closing =>
      intro p' twins beyond
      have behind := (twins.advance opening (by decide)).skipLines.advance closing (by decide)
      exact absurd beyond behind.not_lt
  | complete _ => exact fun p' twins beyond => absurd beyond twins.not_lt
  | noStatement _ => exact fun p' twins beyond => absurd beyond twins.skipLines.not_lt
  -- and so does what has a token behind its last phrase
  | group opening _ inner closing ih =>
      intro p' twins beyond
      have behind := (twins.advance opening (by decide)).skipLines
      exact absurd beyond (behind.not_lt_of_paren inner trivial ih closing)
  | lastArgument first closing ih =>
      intro p' twins beyond
      exact absurd beyond (twins.not_lt_of_paren first trivial ih closing)
  | lastParameter first closing ih =>
      intro p' twins beyond
      exact absurd beyond (twins.not_lt_of_paren first trivial ih closing)
  | methodAlone _ inside closing ih =>
      intro p' twins beyond
      exact absurd beyond ((twins.withScope .empty).skipLines.not_lt_of_end inside ih closing)
  | methodNone opening empty _ inside closing ih =>
      intro p' twins beyond
      have list := ((twins.withScope .empty).advance opening (by decide)).skipLines.advance empty
        (by decide)
      exact absurd beyond (list.skipLines.not_lt_of_end inside ih closing)
  | methodList opening _ list _ inside closing ih ih' =>
      intro p' twins beyond
      have behind := ((twins.withScope .empty).advance opening (by decide)).skipLines
      exact absurd beyond (behind.not_lt_of_body list trivial ih inside ih' closing)
  | methodBare _ _ list _ inside closing ih ih' =>
      intro p' twins beyond
      have behind := twins.withScope .empty
      exact absurd beyond (behind.not_lt_of_body list trivial ih inside ih' closing)
  -- the last phrase reaches the end of the input
  | @selfCallWith p q args named unknown noTarget begins list ih =>
      intro p' twins beyond
      have behind := twins.advance named (by decide)
      obtain ⟨q', list', done⟩ := ih _ (behind.intern p.token.literal) beyond
      have reads : Reads limit (.leading .name) p' _ q' :=
        .selfCallWith (by rwa [twins.token_eq]) (by rwa [twins.token_eq, twins.agree.scope_eq])
          (by rwa [behind.token_eq]) (by rwa [behind.token_eq]) (by rwa [twins.token_eq])
      rw [twins.token_eq] at reads
      exact ⟨q', reads, done⟩
  | @definition p q params body opening named method ih =>
      intro p' twins beyond
      have behind := twins.advance opening (by decide)
      obtain ⟨q', method', done⟩ := ih _ (behind.advance named (by decide)) beyond
      have reads : Reads limit (.leading .definition) p' _ q' :=
        .definition (by rwa [twins.token_eq]) (by rwa [behind.token_eq]) method'
      rw [twins.token_eq, behind.token_eq] at reads
      exact ⟨q', reads, done⟩
  | @assignment p q target position value assign inner ih =>
      intro p' twins beyond
      have behind := twins.advance assign (by decide)
      obtain ⟨q', inner', done⟩ := ih _ (behind.declare target.name) beyond
      have reads : Reads limit (.following .assignment (.identifier target position)) p' _ q' :=
        .assignment (by rwa [twins.token_eq]) inner'
      rw [twins.token_eq] at reads
      exact ⟨q', reads, done⟩
  | @call p q callee position args notAfter opening more list ih =>
      intro p' twins beyond
      have behind := (twins.advance opening (by decide)).skipLines
      obtain ⟨q', list', done⟩ := ih _ (behind.intern callee.name) beyond
      exact ⟨q', .call (by rwa [twins.afterParen_eq]) (by rwa [twins.token_eq])
        (by rwa [behind.token_eq]) list', done⟩
  | callAgain notAfter opening more list ih =>
      intro p' twins beyond
      have behind := (twins.advance opening (by decide)).skipLines
      obtain ⟨q', list', done⟩ := ih _ behind beyond
      exact ⟨q', .callAgain (by rwa [twins.afterParen_eq]) (by rwa [twins.token_eq])
        (by rwa [behind.token_eq]) list', done⟩
  | @operator p q left right name known inner ih =>
      intro p' twins beyond
      have behind := twins.advance rfl (TokenKind.other_of_operator known)
      obtain ⟨q', inner', done⟩ := ih _ (behind.intern name) beyond
      have reads : Reads limit (.following .operator left) p' _ q' :=
        .operator (by rwa [twins.token_eq]) (by rwa [twins.token_eq])
      rw [twins.token_eq] at reads
      exact ⟨q', reads, done⟩
  | @signedNumber p q left right value signed written inner ih =>
      intro p' twins beyond
      have behind : s.Twins p.advance p'.advance := by
        rcases Token.kind_of_numeral written with kind | kind <;>
          exact twins.advance kind (by decide)
      obtain ⟨q', inner', done⟩ := ih _ (behind.intern (splitFirst p.token.literal).1) beyond
      have reads : Reads limit (.following .signedNumber left) p' _ q' :=
        .signedNumber (by rwa [twins.token_eq]) (by rwa [twins.token_eq])
          (by rwa [twins.token_eq])
      rw [twins.token_eq] at reads
      exact ⟨q', reads, done⟩
  | @send p left dot named _ =>
      by_cases here : p.cursor.index = s.place
      · exact .inl here
      · refine .inr fun p' twins beyond => ?_
        have behind := twins.advance_of_ne (by rw [dot]; decide) here
        exact absurd beyond (behind.advance named (by decide)).not_lt
  | @sendWith p q left args dot named begins list ih =>
      by_cases here : p.cursor.index = s.place
      · exact .inl here
      · refine .inr fun p' twins beyond => ?_
        have behind := twins.advance_of_ne (by rw [dot]; decide) here
        have further := behind.advance named (by decide)
        obtain ⟨q', list', done⟩ := ih _ (further.intern p.advance.token.literal) beyond
        have reads : Reads limit (.following .send left) p' _ q' :=
          .sendWith (by rwa [twins.token_eq]) (by rwa [behind.token_eq])
            (by rwa [further.token_eq]) (by rwa [behind.token_eq])
        rw [twins.token_eq, behind.token_eq] at reads
        exact ⟨q', reads, done⟩
  | @ternary p p₁ q left ifTrue ifFalse sign first colon second ih ih' =>
      intro p' twins beyond
      obtain ⟨p₁', first', there⟩ := (twins.advance sign (by decide)).follow_of_lines first trivial
        ih colon (by decide)
      obtain ⟨q', second', done⟩ := ih' _ (there.skipLines.advance colon (by decide)) beyond
      have reads : Reads limit (.following .ternary left) p' _ q' :=
        .ternary (by rwa [twins.token_eq]) first' (by rwa [there.skipLines.token_eq]) second'
      rw [twins.token_eq] at reads
      exact ⟨q', reads, done⟩
  | lastBareArgument first _ ih =>
      intro p' twins beyond
      obtain ⟨q', first', done⟩ := ih _ twins beyond
      exact ⟨q', .lastBareArgument first' (by rw [done.eof']; decide), done⟩
  | bareArgument first comma rest ih ih' =>
      intro p' twins beyond
      obtain ⟨p₁', first', there⟩ := twins.follow_of_kind first trivial ih comma (by decide)
      obtain ⟨q', rest', done⟩ := ih' _ (there.advance comma (by decide)) beyond
      exact ⟨q', .bareArgument first' (by rwa [there.token_eq]) rest', done⟩
  | argument first comma rest ih ih' =>
      intro p' twins beyond
      obtain ⟨p₁', first', there⟩ := twins.follow_of_lines first trivial ih comma (by decide)
      obtain ⟨q', rest', done⟩ := ih' _ (there.skipLines.advance comma (by decide)) beyond
      exact ⟨q', .argument first' (by rwa [there.skipLines.token_eq]) rest', done⟩
  | lastBareParameter first _ ih =>
      intro p' twins beyond
      obtain ⟨q', first', done⟩ := ih _ twins beyond
      exact ⟨q', .lastBareParameter first' (by rw [done.eof']; decide), done⟩
  | bareParameter first comma rest ih ih' =>
      intro p' twins beyond
      obtain ⟨p₁', first', there⟩ := twins.follow_of_kind first trivial ih comma (by decide)
      obtain ⟨q', rest', done⟩ := ih' _ (there.advance comma (by decide)) beyond
      exact ⟨q', .bareParameter first' (by rwa [there.token_eq]) rest', done⟩
  | furtherParameter first comma rest ih ih' =>
      intro p' twins beyond
      obtain ⟨p₁', first', there⟩ := twins.follow_of_lines first trivial ih comma (by decide)
      obtain ⟨q', rest', done⟩ :=
        ih' _ (there.skipLines.advance comma (by decide)).skipLines beyond
      exact ⟨q', .furtherParameter first' (by rwa [there.skipLines.token_eq]) rest', done⟩
  -- the first phrase may reach it as well, and then nothing goes on
  | @expression min form p p₁ q left node room leads first rest ih ih' =>
      intro p' twins beyond
      have room' : p'.isFull limit = false := by rwa [twins.isFull_eq]
      have leads' : p'.skipLines.token.kind.leading? = some form := by
        rwa [twins.skipLines.token_eq]
      rcases twins.opened.skipLines.follow first leads ih with
        ⟨p₁', first', there⟩ | ⟨p₁', first', done⟩
      · obtain ⟨q', rest', done⟩ := ih' _ there beyond
        exact ⟨q'.closed, .expression room' leads' first' rest', done.eof, done.eof',
          done.scope_eq⟩
      · obtain ⟨rfl, rfl⟩ := rest.continuation_eq (by rw [done.eof]; rfl)
        exact ⟨p₁'.closed, .expression room' leads' first' (.complete_of_eof done.eof'), done.eof,
          done.eof', done.scope_eq⟩
  | @longer min form p p₁ q left longer node lt follows first rest ih ih' =>
      intro p' twins beyond
      have lt' : min < p'.token.precedence := by rwa [twins.token_eq]
      have follows' : p'.token.kind.following? = some form := by rwa [twins.token_eq]
      rcases ih.cases with ⟨rfl, here⟩ | again
      · exact twins.sent here lt first rest
      · have starts : (Goal.following form left).Starts p.cursor :=
          ⟨follows, Nat.lt_of_le_of_lt (Nat.zero_le _) lt⟩
        rcases twins.follow first starts again with ⟨p₁', first', there⟩ | ⟨p₁', first', done⟩
        · obtain ⟨q', rest', done⟩ := ih' _ there beyond
          exact ⟨q', .longer lt' follows' first' rest', done⟩
        · obtain ⟨rfl, rfl⟩ := rest.continuation_eq (by rw [done.eof]; rfl)
          exact ⟨p₁', .longer lt' follows' first' (.complete_of_eof done.eof'), done⟩
  | @statement terminator p p₁ q node nodes goesOn noEnd first ends rest ih ih' =>
      intro p' twins beyond
      have goesOn' : p'.skipLines.token.kind ≠ terminator := by rwa [twins.skipLines.token_eq]
      have noEnd' : p'.skipLines.token.kind ≠ .eof := by rwa [twins.skipLines.token_eq]
      rcases twins.skipLines.follow first trivial ih with ⟨p₁', first', there⟩ | ⟨p₁', first', done⟩
      · obtain ⟨q', rest', done⟩ := ih' _ there.skipLines beyond
        exact ⟨q', .statement goesOn' noEnd' first' (by rwa [there.token_eq]) rest', done⟩
      · rw [done.skipLines_eq] at rest
        obtain ⟨rfl, rfl⟩ := rest.statements_eq done.eof
        refine ⟨p₁'.skipLines.skipLines, ?_, ?_⟩
        · exact .statement goesOn' noEnd' first' (.inr (.inl done.eof'))
            (.noStatement (.inr (by rw [done.skipLines_eq', done.skipLines_eq', done.eof'])))
        · rwa [done.skipLines_eq', done.skipLines_eq']

end RubyReader
