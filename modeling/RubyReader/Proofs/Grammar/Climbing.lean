/-
# `Climbing` — the reader climbs every derivation

The reader has no levels: one loop goes on as long as the next token binds
tighter than what it was started with.  A phrase of a level therefore begins
with a leading form, and behind it the loop runs through the rest of the phrase
as soon as it was started below what continues phrases of that level
(`Continues`).  With this as the invariant, by induction on the derivation,
the tokens of an expression are read as its tree (`climbs`).
-/
import RubyReader.Proofs.Grammar.Phrase
import RubyReader.Proofs.Reading.Invariants

namespace RubyReader

open Grammar (splitFirst)

/-! ## Where a parser stands -/

/-- A parser with these tokens in front of it, in a scope, inside so many expressions. -/
structure Parser.Stands (p : Parser) (tokens : List Token) (scope : Names) (depth : Nat) :
    Prop where
  upcoming : p.cursor.upcoming = tokens
  scope_eq : p.scope = scope
  depth_eq : p.depth = depth

namespace Parser.Stands

variable {p : Parser} {token : Token} {tokens rest : List Token} {scope : Names} {depth : Nat}

theorem token_eq (h : p.Stands (token :: rest) scope depth) : p.token = token :=
  (List.cons.inj h.upcoming).1

theorem advance (h : p.Stands (token :: rest) scope depth) (ne : token.kind ≠ .eof) :
    p.advance.Stands rest scope depth := by
  obtain rfl := h.token_eq
  refine ⟨?_, h.scope_eq, h.depth_eq⟩
  exact (List.cons.inj ((Cursor.upcoming_of_ne ne).symm.trans h.upcoming)).2

theorem pass {kind : TokenKind} {token : Terminal kind}
    (h : p.Stands (token.1 :: rest) scope depth) (ne : kind ≠ .eof) :
    p.advance.Stands rest scope depth :=
  h.advance (by rwa [token.2])

theorem kind_eq {kind : TokenKind} {token : Terminal kind}
    (h : p.Stands (token.1 :: rest) scope depth) : p.token.kind = kind := by
  rw [h.token_eq, token.2]

theorem lines (h : p.Stands (token :: rest) scope depth) (ne : token.kind ≠ .newline) :
    p.skipLines = p := by
  obtain rfl := h.token_eq
  exact skipLines_of_ne ne

theorem declare (h : p.Stands tokens scope depth) (name : String) :
    (p.declare name).Stands tokens (scope.insert name) depth :=
  ⟨h.upcoming, by rw [scope_declare, h.scope_eq], h.depth_eq⟩

theorem intern (h : p.Stands tokens scope depth) (name : String) :
    (p.intern name).Stands tokens scope depth :=
  ⟨h.upcoming, h.scope_eq, h.depth_eq⟩

theorem opened (h : p.Stands tokens scope depth) : p.opened.Stands tokens scope (depth + 1) :=
  ⟨h.upcoming, h.scope_eq, by rw [depth_opened, h.depth_eq]⟩

theorem closed (h : p.Stands tokens scope (depth + 1)) : p.closed.Stands tokens scope depth :=
  ⟨h.upcoming, h.scope_eq, by rw [depth_closed, h.depth_eq]; rfl⟩

theorem withScope (h : p.Stands tokens scope depth) (inner : Names) :
    (p.withScope inner).Stands tokens inner depth :=
  ⟨h.upcoming, rfl, h.depth_eq⟩

end Parser.Stands

/-- There is room for so many open expressions. -/
def Room (limit : Option Nat) (depth : Nat) : Prop := ∀ most ∈ limit, depth ≤ most

theorem Room.mono {limit : Option Nat} {depth depth' : Nat} (h : Room limit depth)
    (le : depth' ≤ depth) : Room limit depth' := fun most mem => Nat.le_trans le (h most mem)

theorem Room.isFull_eq {limit : Option Nat} {p : Parser} (h : Room limit (p.depth + 1)) :
    p.isFull limit = false := by
  cases limit with
  | none => rfl
  | some most => exact decide_eq_false (Nat.not_le.mpr (h most rfl))

/-! ## Levels and precedences -/

namespace Level

/-- The precedence of the tokens that go on with a phrase of a level. -/
def binding : Level → Precedence
  | expression | conditional => .ternary
  | equality => .equality
  | ordering => .ordering
  | sum => .sum
  | product => .product
  | send => .dot
  | atom => .call

/-- The precedence from which on no token goes on with a complete phrase of a level. -/
def floor : Level → Precedence
  | expression | conditional => .lowest
  | equality => .equality
  | ordering => .ordering
  | sum => .sum
  | product => .product
  | send | atom => .dot

/-- The number of expressions that operators of a level can open inside each other. -/
def allowance : Level → Nat
  | expression | conditional | equality => 4
  | ordering => 3
  | sum => 2
  | product => 1
  | send | atom => 0

theorem binding_next (level : Level) : level.binding.rank ≤ level.next.binding.rank := by
  cases level <;> decide

theorem floor_next (level : Level) : level.floor.rank ≤ level.next.floor.rank := by
  cases level <;> decide

theorem allowance_next (level : Level) : level.next.allowance ≤ level.allowance := by
  cases level <;> decide

end Level

namespace Operator

variable (operator : Operator)

theorem floor_lt : operator.level.floor < operator.level.next.binding := by
  cases operator <;> decide

theorem floor_eq : operator.level.floor = operator.level.binding := by
  cases operator <;> rfl

theorem allowance_succ : operator.level.next.allowance + 1 = operator.level.allowance := by
  cases operator <;> rfl

theorem operator?_eq : operator.kind.operator? = some operator.message.name := by
  cases operator <;> rfl

theorem following?_eq : operator.kind.following? = some .operator := by
  cases operator <;> rfl

theorem ne_eof : operator.kind ≠ .eof := by
  cases operator <;> decide

variable {operator} in
theorem precedence_eq (token : Terminal operator.kind) :
    token.1.precedence = operator.level.floor := by
  obtain ⟨token, kind⟩ := token
  unfold Token.precedence
  rw [kind]
  cases operator <;> rfl

end Operator

/-! ## What may stand behind a phrase

The tighter a level binds, the more tokens may stand behind its phrases: separators behind
those of every level, an operator behind those of the tighter ones. -/

/-- A token at which the loop stops that was started with `min`. -/
def Stops (min : Precedence) (token : Token) : Prop :=
  min < token.precedence → token.kind.following? = none

theorem Stops.mono {min min' : Precedence} {token : Token} (h : Stops min token)
    (le : min.rank ≤ min'.rank) : Stops min' token :=
  fun lt => h (Nat.lt_of_le_of_lt le lt)

theorem Stops.of_none {min : Precedence} {token : Token} (h : token.kind.following? = none) :
    Stops min token := fun _ => h

/-- A token that may stand behind a phrase of a level. -/
structure Follows (level : Level) (token : Token) : Prop where
  noList : token.kind ≠ .lparen
  noTarget : token.kind ≠ .assign
  noArgument : token.beginsBareArgument = false
  stops : Stops level.floor token

namespace Follows

variable {level : Level} {token : Token}

theorem next (h : Follows level token) : Follows level.next token :=
  ⟨h.noList, h.noTarget, h.noArgument, h.stops.mono level.floor_next⟩

theorem operator {operator : Operator} (token : Terminal operator.kind) :
    Follows operator.level token.1 := by
  refine ⟨?_, ?_, ?_, fun lt => ?_⟩
  · rw [token.2]
    cases operator <;> decide
  · rw [token.2]
    cases operator <;> decide
  · unfold Token.beginsBareArgument
    rw [token.2]
    cases operator <;> rfl
  · rw [Operator.precedence_eq token] at lt
    exact absurd lt (Nat.lt_irrefl _)

theorem separator {kind : TokenKind} (token : Terminal kind)
    (h : kind = .rparen ∨ kind = .comma ∨ kind = .colon ∨ kind = .eof) :
    Follows level token.1 := by
  obtain ⟨token, rfl⟩ := token
  rcases h with h | h | h | h <;>
    exact ⟨by simp [h], by simp [h], by simp [Token.beginsBareArgument, h],
      .of_none (by simp [h, TokenKind.following?])⟩

theorem question (token : Terminal .question) : Follows .equality token.1 := by
  obtain ⟨token, h⟩ := token
  refine ⟨by simp [h], by simp [h], by simp [Token.beginsBareArgument, h], ?_⟩
  simp only [Stops, Token.precedence, h]
  exact fun lt => absurd lt (by decide)

theorem dot (token : Terminal .dot) : Follows .send token.1 := by
  obtain ⟨token, h⟩ := token
  refine ⟨by simp [h], by simp [h], by simp [Token.beginsBareArgument, h], ?_⟩
  simp only [Stops, Token.precedence, h]
  exact fun lt => absurd lt (by decide)

theorem signed (isSigned : token.signed = true) {text : String} {value : Value}
    (h : token.numeral? text = some value) : Follows .sum token := by
  rcases Token.kind_of_numeral h with kind | kind <;>
  · refine ⟨by simp [kind], by simp [kind], by simp [Token.beginsBareArgument, kind, isSigned], ?_⟩
    simp only [Stops, Token.precedence, kind, isSigned]
    exact fun lt => absurd lt (by decide)

end Follows

/-! ## What is proved of a phrase

The loop is followed with the tree that it has read so far.  `Continues` takes one more turn
at a time: an operator and its operand, a list in parentheses, or a message. -/

variable {limit : Option Nat} {p p' q : Parser} {t token : Token} {tokens rest : List Token}
  {scope scope' : Names} {depth : Nat}

/-- How a phrase begins: with a leading form, or with the digits of a signed
number, whose sign was taken as an operator. -/
def Begins (limit : Option Nat) (split : Bool) (p : Parser) (left : Node) (p' : Parser) : Prop :=
  match split with
  | false =>
    ∃ form, p.token.kind.leading? = some form ∧ Reads limit (.leading form) p left p'
  | true =>
    ∃ value, p.token.signed = true ∧ p.token.numeral? p.token.digits = some value ∧
      left = .literal value p.token.position ∧ p' = p.advance.intern p.token.sign

/-- The loop that has read `left` comes to `node`, however it goes on from there,
if it was started below `binding`. -/
def Continues (limit : Option Nat) (binding : Precedence) (left : Node) (p : Parser)
    (node : Node) (q : Parser) : Prop :=
  ∀ min a r, min < binding → Reads limit (.continuation node min) q a r →
    Reads limit (.continuation left min) p a r

theorem Continues.refl {binding : Precedence} {node : Node} :
    Continues limit binding node p node p := fun _ _ _ _ h => h

theorem Continues.mono {binding binding' : Precedence} {left node : Node}
    (h : Continues limit binding left p node q) (le : binding'.rank ≤ binding.rank) :
    Continues limit binding' left p node q :=
  fun min a r lt => h min a r (Nat.lt_of_lt_of_le lt le)

theorem skipLines_of_leads {form : LeadingForm} (h : p.token.kind.leading? = some form) :
    p.skipLines = p := by
  refine Parser.skipLines_of_ne fun newline => ?_
  rw [newline] at h
  cases h

theorem afterParen_eq (h : q.cursor = p.cursor.advance) (name : p.token.kind = .identifier) :
    q.afterParen = false := by
  have before : q.cursor.previous? = some p.token := by
    rw [h]
    exact Parser.previous_advance (by simp [name])
  simp [Parser.afterParen, before, name]

/-- What begins and is continued up to a token that ends it is an expression. -/
theorem reads_expression {min binding : Precedence} {left node : Node}
    (stands : p.depth = depth) (room : Room limit (depth + 1))
    (begins : Begins limit false p.opened left p')
    (continues : Continues limit binding left p' node q) (lt : min < binding)
    (stops : Stops min q.token) :
    (∃ form, p.token.kind.leading? = some form) ∧
      Reads limit (.expression min) p node q.closed := by
  obtain ⟨form, leads, reads⟩ := begins
  have leads' : p.token.kind.leading? = some form := leads
  have same : p.skipLines = p := skipLines_of_leads leads'
  have opened : p.opened.skipLines = p.opened := congrArg Parser.opened same
  have notFull : p.isFull limit = false := Room.isFull_eq (by rwa [stands])
  refine ⟨⟨form, leads'⟩, .expression notFull (by rwa [same]) (by rwa [opened]) ?_⟩
  exact continues _ _ _ lt (.complete stops)

/-- An expression between parentheses is a leading form. -/
theorem begins_group (opening : Terminal .lparen) (closing : Terminal .rparen) {node : Node}
    (stands : p.Stands (opening.1 :: tokens) scope depth)
    (leads : ∃ form, p.advance.token.kind.leading? = some form)
    (reads : Reads limit (.expression .lowest) p.advance node q)
    (behind : q.Stands (closing.1 :: rest) scope' depth) : Begins limit false p node q.advance := by
  obtain ⟨form, leads⟩ := leads
  have same : p.advance.skipLines = p.advance := skipLines_of_leads leads
  have same' : q.skipLines = q := behind.lines (by simp [closing.2])
  have more : p.advance.skipLines.token.kind ≠ .rparen := by
    intro closes
    rw [same] at closes
    rw [closes] at leads
    cases leads
  have whole := Reads.group stands.kind_eq more (by rwa [same]) (by rw [same', behind.kind_eq])
  rw [same'] at whole
  exact ⟨.group, by rw [stands.kind_eq]; rfl, whole⟩

/-- One more turn of the loop. -/
theorem Continues.turn {binding : Precedence} {form : FollowingForm} {left node longer : Node}
    (h : Continues limit binding left p node p') (le : binding.rank ≤ p'.token.precedence.rank)
    (follows : p'.token.kind.following? = some form)
    (reads : Reads limit (.following form node) p' longer q) :
    Continues limit binding left p longer q :=
  fun min a r lt rest => h min a r lt (.longer (Nat.lt_of_lt_of_le lt le) follows reads rest)

/-- What a parenthesized list makes a call with arguments of. -/
inductive Callable : Node → Node → Symbol → Position → Prop
  | name (callee : Identifier) (position : Position) :
      Callable (.identifier callee position) (.implicitSelf position) ⟨callee.name⟩ position
  | call (receiver : Node) (message : Symbol) (position : Position) :
      Callable (.call receiver message [] position) receiver message position

theorem Continues.call {binding : Precedence} {left node longer : Node}
    (h : Continues limit binding left p node p') (paren : p'.token.kind = .lparen)
    (reads : Reads limit (.following .call node) p' longer q) :
    Continues limit binding left p longer q := by
  refine h.turn ?_ (by rw [paren]; rfl) reads
  simp only [Token.precedence, paren]
  cases binding <;> decide

theorem Continues.send {left node : Node} (h : Continues limit .dot left p node p')
    (dot : Terminal .dot) (message : Terminal .identifier)
    (stands : p'.Stands (dot.1 :: message.1 :: t :: rest) scope depth)
    (noArgument : t.beginsBareArgument = false) :
    ∃ q, Continues limit .dot left p (.call node ⟨message.1.literal⟩ [] dot.1.position) q ∧
      q.Stands (t :: rest) scope depth ∧ q.afterParen = false := by
  have named := stands.pass (by decide)
  have behind := named.pass (by decide)
  have reads : Reads limit (.following .send node) p' _ _ :=
    .send stands.kind_eq named.kind_eq (by rw [behind.token_eq, noArgument])
  rw [stands.token_eq, named.token_eq] at reads
  refine ⟨_, ?_, behind.intern message.1.literal, afterParen_eq (p := p'.advance) rfl named.kind_eq⟩
  exact h.turn (by simp [Token.precedence, stands.kind_eq]) (by rw [stands.kind_eq]; rfl) reads

namespace Callable

variable {left receiver : Node} {message : Symbol} {position : Position}
  (opening : Terminal .lparen)

/-- An empty list behind what can take arguments. -/
theorem reads_empty (callable : Callable left receiver message position)
    (closing : Terminal .rparen) (after : p.afterParen = false)
    (stands : p.Stands (opening.1 :: closing.1 :: rest) scope depth) :
    ∃ q, Reads limit (.following .call left) p (.call receiver message [] position) q ∧
      q.Stands rest scope depth := by
  have inside := stands.pass (by decide)
  have same : p.advance.skipLines = p.advance := inside.lines (by simp [closing.2])
  have closes : p.advance.skipLines.token.kind = .rparen := by rw [same, inside.kind_eq]
  cases callable with
  | name callee =>
      have behind := (inside.pass (by decide)).intern callee.name
      rw [← same] at behind
      exact ⟨_, .emptyCall after stands.kind_eq closes, behind⟩
  | call =>
      have behind := inside.pass (by decide)
      rw [← same] at behind
      exact ⟨_, .emptyCallAgain after stands.kind_eq closes, behind⟩

/-- A list of arguments behind what can take them. -/
theorem reads_list (callable : Callable left receiver message position)
    (after : p.afterParen = false) (stands : p.Stands (opening.1 :: tokens) scope depth)
    {motive : List Node → Parser → Prop}
    (list : ∀ {p : Parser}, p.Stands tokens scope depth →
      (∃ form, p.token.kind.leading? = some form) ∧
        ∃ args q, Reads limit .arguments p args q ∧ motive args q) :
    ∃ args q, Reads limit (.following .call left) p (.call receiver message args position) q ∧
      motive args q := by
  have inside := stands.pass (by decide)
  obtain ⟨⟨form, leads⟩, _⟩ := list inside
  have same : p.advance.skipLines = p.advance := skipLines_of_leads leads
  have more : p.advance.skipLines.token.kind ≠ .rparen := by
    intro closes
    rw [same] at closes
    rw [closes] at leads
    cases leads
  cases callable with
  | name callee =>
      obtain ⟨_, args, q, reads, behind⟩ := list (inside.intern callee.name)
      refine ⟨args, q, .call after stands.kind_eq more ?_, behind⟩
      rwa [show (p.intern callee.name).advance.skipLines = p.advance.intern callee.name from
        congrArg (Parser.intern · callee.name) same]
  | call =>
      obtain ⟨_, args, q, reads, behind⟩ := list inside
      refine ⟨args, q, .callAgain after stands.kind_eq more ?_, behind⟩
      rwa [same]

end Callable

/-- The reader reads the tokens of a phrase as its tree: a phrase of a level by
its leading form and the loop, an argument list as what follows a callable. -/
def Phrase.Climbs (limit : Option Nat) :
    {category : Category} → {split : Bool} → Phrase category split → Prop
  | .level level, split, x =>
    ∀ {p : Parser} {t : Token} {rest : List Token} {scope : Names} {depth : Nat},
      p.Stands (x.tokens ++ t :: rest) scope depth → Follows level t →
      Room limit (depth + level.allowance + 5 * x.nesting) →
      ∃ left p' q, Begins limit split p left p' ∧
        Continues limit level.binding left p' (x.tree scope).1 q ∧
        q.Stands (t :: rest) (x.tree scope).2 depth
  | .parens, _, x =>
    ∀ {p : Parser} {rest : List Token} {scope : Names} {depth : Nat} {left receiver : Node}
      {message : Symbol} {position : Position},
      p.Stands (x.tokens ++ rest) scope depth → p.afterParen = false →
      Callable left receiver message position → Room limit (depth + 5 * x.nesting) →
      p.token.kind = .lparen ∧
        ∃ q, Reads limit (.following .call left) p
            (.call receiver message (x.tree scope).1 position) q ∧
          q.Stands rest (x.tree scope).2 depth
  | .list, _, x =>
    ∀ {p : Parser} {rest : List Token} {scope : Names} {depth : Nat},
      p.Stands (x.tokens ++ rest) scope depth → Room limit (depth + 5 * x.nesting) →
      (∃ form, p.token.kind.leading? = some form) ∧
        ∃ q, Reads limit .arguments p (x.tree scope).1 q ∧
          q.Stands rest (x.tree scope).2 depth

namespace Phrase

/-- An expression of a level, if it was started below what continues it, and the
token behind it does not. -/
theorem Climbs.expression {level : Level} {x : Phrase (.level level) false} (h : x.Climbs limit)
    {min : Precedence} (stands : p.Stands (x.tokens ++ t :: rest) scope depth)
    (follows : Follows level t) (lt : min < level.binding) (stops : Stops min t)
    (room : Room limit (depth + 1 + level.allowance + 5 * x.nesting)) :
    (∃ form, p.token.kind.leading? = some form) ∧
      ∃ q, Reads limit (.expression min) p (x.tree scope).1 q ∧
        q.Stands (t :: rest) (x.tree scope).2 depth := by
  obtain ⟨left, p', q, begins, continues, behind⟩ := h stands.opened follows room
  obtain ⟨leads, reads⟩ := reads_expression stands.depth_eq (room.mono (by omega)) begins continues
    lt (by rwa [behind.token_eq])
  exact ⟨leads, q.closed, reads, behind.closed⟩

theorem Climbs.whole {x : Phrase (.level .expression) false} (h : x.Climbs limit)
    (stands : p.Stands (x.tokens ++ t :: rest) scope depth) (follows : Follows .expression t)
    (room : Room limit (depth + 5 * (x.nesting + 1))) :
    (∃ form, p.token.kind.leading? = some form) ∧
      ∃ q, Reads limit (.expression .lowest) p (x.tree scope).1 q ∧
        q.Stands (t :: rest) (x.tree scope).2 depth :=
  h.expression stands follows (by decide) follows.stops
    (room.mono (by simp only [Level.allowance]; omega))

/-! ### Arguments -/

theorem climbs_lastArgument {arg : Phrase (.level .expression) false} (h : arg.Climbs limit)
    (closing : Terminal .rparen) : (lastArgument arg closing).Climbs limit := by
  intro p rest scope depth stands room
  rw [lastArgument_append] at stands
  obtain ⟨leads, q, reads, behind⟩ := h.whole stands (.separator closing (.inl rfl)) room
  have same : q.skipLines = q := behind.lines (by simp [closing.2])
  refine ⟨leads, q.advance, ?_, behind.pass (by decide)⟩
  have last := Reads.lastArgument reads (by rw [same, behind.kind_eq])
  rwa [same] at last

theorem climbs_argument {arg : Phrase (.level .expression) false} (h : arg.Climbs limit)
    (comma : Terminal .comma) {list : Phrase .list false} (h' : list.Climbs limit) :
    (argument arg comma list).Climbs limit := by
  intro p rest scope depth stands room
  rw [argument_append] at stands
  change Room limit (depth + 5 * max (arg.nesting + 1) list.nesting) at room
  obtain ⟨leads, q, reads, behind⟩ :=
    h.whole stands (.separator comma (.inr (.inl rfl))) (room.mono (by omega))
  have same : q.skipLines = q := behind.lines (by simp [comma.2])
  obtain ⟨_, r, readsRest, finish⟩ := h' (behind.pass (by decide)) (room.mono (by omega))
  refine ⟨leads, r, ?_, finish⟩
  exact .argument reads (by rw [same, behind.kind_eq]) (by rwa [same])

theorem climbs_noArguments (opening : Terminal .lparen) (closing : Terminal .rparen) :
    (noArguments opening closing).Climbs limit := by
  intro p rest scope depth left receiver message position stands after callable _
  exact ⟨stands.kind_eq, callable.reads_empty opening closing after stands⟩

theorem climbs_arguments (opening : Terminal .lparen) {list : Phrase .list false}
    (h : list.Climbs limit) : (arguments opening list).Climbs limit := by
  intro p rest scope depth left receiver message position stands after callable room
  obtain ⟨_, q, reads, rfl, behind⟩ := callable.reads_list opening after stands
    (motive := fun args q => args = (list.tree scope).1 ∧ q.Stands rest (list.tree scope).2 depth)
    fun inside => by
      obtain ⟨leads, q, reads, behind⟩ := h inside room
      exact ⟨leads, _, q, reads, rfl, behind⟩
  exact ⟨stands.kind_eq, q, reads, behind⟩

/-! ### Atoms -/

theorem climbs_of_begins {split : Bool} {x : Phrase (.level .atom) split}
    (h : ∀ {p : Parser} {t : Token} {rest : List Token} {scope : Names} {depth : Nat},
      p.Stands (x.tokens ++ t :: rest) scope depth → Follows .atom t →
      Room limit (depth + 5 * x.nesting) →
      ∃ q, Begins limit split p (x.tree scope).1 q ∧ q.Stands (t :: rest) (x.tree scope).2 depth) :
    x.Climbs limit := by
  intro p t rest scope depth stands follows room
  obtain ⟨q, begins, behind⟩ := h stands follows room
  exact ⟨_, q, q, begins, .refl, behind⟩

theorem climbs_number {token : Token} {value : Value}
    (inRange : token.numeral? token.literal = some value) :
    (number token value inRange).Climbs limit := by
  refine climbs_of_begins fun {p t rest scope depth} stands _ _ => ?_
  obtain rfl := stands.token_eq
  exact ⟨_, ⟨.number, Token.leading?_of_numeral inRange, .number inRange⟩,
    stands.advance (Token.ne_eof_of_numeral inRange)⟩

theorem climbs_digits {token : Token} {value : Value} (isSigned : token.signed = true)
    (inRange : token.numeral? token.digits = some value) :
    (digits token value isSigned inRange).Climbs limit := by
  refine climbs_of_begins fun {p t rest scope depth} stands _ _ => ?_
  obtain rfl := stands.token_eq
  exact ⟨_, ⟨value, isSigned, inRange, rfl, rfl⟩,
    (stands.advance (Token.ne_eof_of_numeral inRange)).intern _⟩

theorem climbs_string (token : Terminal .string) : (string token).Climbs limit := by
  refine climbs_of_begins fun {p t rest scope depth} stands _ _ => ?_
  have kind := stands.kind_eq
  have reads : Reads limit (.leading .string) p _ _ := .string kind
  rw [stands.token_eq] at reads
  exact ⟨_, ⟨.string, by rw [kind]; rfl, reads⟩, stands.pass (by decide)⟩

theorem climbs_symbol (token : Terminal .symbol) : (symbol token).Climbs limit := by
  refine climbs_of_begins fun {p t rest scope depth} stands _ _ => ?_
  have kind := stands.kind_eq
  have reads : Reads limit (.leading .symbol) p _ _ := .symbol kind
  rw [stands.token_eq] at reads
  exact ⟨_, ⟨.symbol, by rw [kind]; rfl, reads⟩, (stands.pass (by decide)).intern _⟩

theorem climbs_trueLiteral (token : Terminal .kwTrue) : (trueLiteral token).Climbs limit := by
  refine climbs_of_begins fun {p t rest scope depth} stands _ _ => ?_
  have kind := stands.kind_eq
  have reads : Reads limit (.leading .boolean) p _ _ := .trueLiteral kind
  rw [stands.token_eq] at reads
  exact ⟨_, ⟨.boolean, by rw [kind]; rfl, reads⟩, stands.pass (by decide)⟩

theorem climbs_falseLiteral (token : Terminal .kwFalse) : (falseLiteral token).Climbs limit := by
  refine climbs_of_begins fun {p t rest scope depth} stands _ _ => ?_
  have kind := stands.kind_eq
  have reads : Reads limit (.leading .boolean) p _ _ := .falseLiteral kind
  rw [stands.token_eq] at reads
  exact ⟨_, ⟨.boolean, by rw [kind]; rfl, reads⟩, stands.pass (by decide)⟩

theorem climbs_nilLiteral (token : Terminal .kwNil) : (nilLiteral token).Climbs limit := by
  refine climbs_of_begins fun {p t rest scope depth} stands _ _ => ?_
  have kind := stands.kind_eq
  have reads : Reads limit (.leading .nil) p _ _ := .nilLiteral kind
  rw [stands.token_eq] at reads
  exact ⟨_, ⟨.nil, by rw [kind]; rfl, reads⟩, stands.pass (by decide)⟩

/-- A name without arguments is read as what it is in its scope. -/
theorem begins_name {name : Terminal .identifier}
    (stands : p.Stands (name.1 :: t :: rest) scope depth) (noTarget : t.kind ≠ .assign)
    (noArgument : t.beginsBareArgument = false) :
    ∃ q, Begins limit false p (Phrase.name name |>.tree scope).1 q ∧
      q.Stands (t :: rest) scope depth ∧ q.cursor = p.cursor.advance := by
  have kind := stands.kind_eq
  have next := stands.pass (by decide)
  have noTarget' : p.advance.token.kind ≠ .assign := by rwa [next.token_eq]
  have noArgument' : p.advance.token.beginsBareArgument = false := by rwa [next.token_eq]
  rw [tree_name]
  by_cases known : scope.contains name.1.literal = true
  · have member : p.token.literal ∈ p.scope := by
      rw [stands.token_eq, stands.scope_eq]
      exact Names.contains_iff.mp known
    have reads : Reads limit (.leading .name) p _ _ := .name kind (.inl member)
    rw [stands.token_eq, stands.scope_eq, known] at reads
    rw [if_pos known]
    exact ⟨_, ⟨.name, by rw [kind]; rfl, reads⟩, next, rfl⟩
  · have noMember : p.token.literal ∉ p.scope := by
      rw [stands.token_eq, stands.scope_eq]
      exact fun member => known (Names.contains_iff.mpr member)
    have reads : Reads limit (.leading .name) p _ _ :=
      .selfCall kind noMember noTarget' noArgument'
    rw [stands.token_eq] at reads
    rw [if_neg known]
    exact ⟨_, ⟨.name, by rw [kind]; rfl, reads⟩, next.intern _, rfl⟩

theorem climbs_name (token : Terminal .identifier) : (name token).Climbs limit := by
  refine climbs_of_begins fun {p t rest scope depth} stands follows _ => ?_
  obtain ⟨q, begins, behind, _⟩ := begins_name stands follows.noTarget follows.noArgument
  exact ⟨q, begins, behind⟩

/-- The first token of an argument list is its parenthesis. -/
theorem tokens_parens {split : Bool} (args : Phrase .parens split) :
    ∃ (opening : Terminal .lparen) (more : List Token), args.tokens = opening.1 :: more := by
  cases args with
  | noArguments opening closing => exact ⟨opening, _, rfl⟩
  | arguments opening list => exact ⟨opening, _, rfl⟩

/-- A name in front of an opening parenthesis is read as what can take arguments. -/
theorem begins_callee (callee : Terminal .identifier) (opening : Terminal .lparen)
    (stands : p.Stands (callee.1 :: opening.1 :: rest) scope depth) :
    ∃ left q, Begins limit false p left q ∧
      Callable left (.implicitSelf callee.1.position) ⟨callee.1.literal⟩ callee.1.position ∧
      q.Stands (opening.1 :: rest) scope depth ∧ q.afterParen = false := by
  obtain ⟨q, begins, behind, cursor⟩ := begins_name stands
    (by simp [opening.2]) (by simp [Token.beginsBareArgument, opening.2])
  refine ⟨_, q, begins, ?_, behind, afterParen_eq cursor stands.kind_eq⟩
  rw [tree_name]
  split
  · exact .name ⟨callee.1, true⟩ callee.1.position
  · exact .call _ _ _

theorem climbs_call (callee : Terminal .identifier) {args : Phrase .parens false}
    (h : args.Climbs limit) : (call callee args).Climbs limit := by
  intro p t rest scope depth stands _ room
  obtain ⟨opening, more, starts⟩ := tokens_parens args
  change p.Stands (callee.1 :: (args.tokens ++ t :: rest)) scope depth at stands
  rw [starts] at stands
  obtain ⟨left, p', begins, callable, there, after⟩ := begins_callee callee opening stands
  replace there : p'.Stands (args.tokens ++ t :: rest) scope depth := by rwa [starts]
  obtain ⟨paren, q, reads, behind⟩ := h there after callable room
  exact ⟨left, p', q, begins, Continues.refl.call paren reads, behind⟩

theorem climbs_group (opening : Terminal .lparen) {inner : Phrase (.level .expression) false}
    (h : inner.Climbs limit) (closing : Terminal .rparen) :
    (group opening inner closing).Climbs limit := by
  refine climbs_of_begins fun {p t rest scope depth} stands _ room => ?_
  rw [group_append] at stands
  obtain ⟨leads, q, reads, behind⟩ :=
    h.whole (stands.pass (by decide)) (.separator closing (.inl rfl)) room
  exact ⟨q.advance, begins_group opening closing stands leads reads behind, behind.pass (by decide)⟩

theorem climbs_emptyGroup (opening : Terminal .lparen) (closing : Terminal .rparen) :
    (emptyGroup opening closing).Climbs limit := by
  refine climbs_of_begins fun {p t rest scope depth} stands _ _ => ?_
  have inside := stands.pass (by decide)
  have same : p.advance.skipLines = p.advance := inside.lines (by simp [closing.2])
  have reads : Reads limit (.leading .group) p _ _ :=
    .emptyGroup stands.kind_eq (by rw [same, inside.kind_eq])
  rw [same, stands.token_eq] at reads
  exact ⟨_, ⟨.group, by rw [stands.kind_eq]; rfl, reads⟩, inside.pass (by decide)⟩

/-! ### Sends -/

theorem climbs_send {split : Bool} {receiver : Phrase (.level .send) split}
    (h : receiver.Climbs limit) (dot : Terminal .dot) (message : Terminal .identifier) :
    (send receiver dot message).Climbs limit := by
  intro p t rest scope depth stands follows room
  rw [send_append] at stands
  obtain ⟨left, p', q, begins, continues, there⟩ := h stands (.dot dot) room
  obtain ⟨r, sent, behind, _⟩ := continues.send dot message there follows.noArgument
  exact ⟨left, p', r, begins, sent, behind⟩

theorem climbs_sendCall {split : Bool} {receiver : Phrase (.level .send) split}
    (h : receiver.Climbs limit) (dot : Terminal .dot) (message : Terminal .identifier)
    {args : Phrase .parens false} (h' : args.Climbs limit) :
    (sendCall receiver dot message args).Climbs limit := by
  intro p t rest scope depth stands _ room
  obtain ⟨opening, more, starts⟩ := tokens_parens args
  rw [sendCall_append, starts] at stands
  change Room limit (depth + Level.send.allowance + 5 * max receiver.nesting args.nesting)
    at room
  obtain ⟨left, p', q, begins, continues, there⟩ := h stands (.dot dot) (room.mono (by omega))
  obtain ⟨q', sent, behind, after⟩ :=
    continues.send dot message there (by simp [Token.beginsBareArgument, opening.2])
  replace behind : q'.Stands (args.tokens ++ t :: rest) (receiver.tree scope).2 depth := by
    rwa [starts]
  obtain ⟨paren, r, reads, finish⟩ := h' behind after (.call _ _ _)
    (room.mono (by simp only [Level.allowance]; omega))
  exact ⟨left, p', r, begins, sent.call paren reads, finish⟩

/-! ### Operators -/

theorem climbs_tighter {level : Level} {split : Bool} (isLoose : level ≠ .atom)
    {inner : Phrase (.level level.next) split} (h : inner.Climbs limit) :
    (tighter isLoose inner).Climbs limit := by
  intro p t rest scope depth stands follows room
  have allowance := level.allowance_next
  change Room limit (depth + level.allowance + 5 * inner.nesting) at room
  obtain ⟨left, p', q, begins, continues, behind⟩ :=
    h stands follows.next (room.mono (by omega))
  exact ⟨left, p', q, begins, continues.mono level.binding_next, behind⟩

theorem climbs_operation {split : Bool} (operator : Operator)
    {left : Phrase (.level operator.level) split} (h : left.Climbs limit)
    (token : Terminal operator.kind) {right : Phrase (.level operator.level.next) false}
    (h' : right.Climbs limit) : (operation operator left token right).Climbs limit := by
  intro p t rest scope depth stands follows room
  have allowance := operator.allowance_succ
  rw [operation_append] at stands
  change Room limit (depth + operator.level.allowance + 5 * max left.nesting right.nesting)
    at room
  obtain ⟨first, p', q, begins, continues, there⟩ :=
    h stands (.operator token) (room.mono (by omega))
  have behind := (there.pass operator.ne_eof).intern operator.message.name
  obtain ⟨_, r, reads, finish⟩ := h'.expression behind follows.next operator.floor_lt
    follows.stops (room.mono (by omega))
  have kind := there.kind_eq
  have sends : Reads limit (.following .operator (left.tree scope).1) q _ _ := .operator
    (by rw [kind, operator.operator?_eq]) (by
      rw [there.token_eq, Operator.precedence_eq]
      exact reads)
  rw [there.token_eq] at sends
  refine ⟨first, p', r, begins, ?_, finish⟩
  refine continues.turn (Nat.le_of_eq ?_) (by rw [kind, operator.following?_eq]) sends
  rw [there.token_eq, Operator.precedence_eq, operator.floor_eq]

theorem tokens_eq_first {category : Category} {split : Bool} (x : Phrase category split) :
    ∃ more, x.tokens = x.first :: more := by
  induction x with
  | conditional _ _ _ _ _ ih | operation _ _ _ _ ih | signed _ _ ih | send _ _ _ ih
  | sendCall _ _ _ _ ih | lastArgument _ _ ih | argument _ _ _ ih =>
      obtain ⟨more, starts⟩ := ih
      exact ⟨_, congrArg (· ++ _) starts⟩
  | tighter _ _ ih => exact ih
  | _ => exact ⟨_, rfl⟩

/-- A phrase of which only the digits of the first token are left begins with a
signed number. -/
theorem first_of_split {category : Category} {split : Bool} (x : Phrase category split)
    (isSplit : split = true) :
    x.first.signed = true ∧ ∃ value, x.first.numeral? x.first.digits = some value := by
  induction x with
  | operation _ _ _ _ ih | signed _ _ ih | send _ _ _ ih | sendCall _ _ _ _ ih
  | tighter _ _ ih => exact ih isSplit
  | digits token value isSigned inRange => exact ⟨isSigned, value, inRange⟩
  | _ => cases isSplit

theorem splitFirst_literal (token : Token) :
    splitFirst token.literal = (token.sign, token.digits) := by
  unfold splitFirst Token.sign Token.digits
  cases token.literal.toList with
  | nil => rfl
  | cons c rest => rfl

theorem climbs_signed {split : Bool} {left : Phrase (.level .sum) split} (h : left.Climbs limit)
    {right : Phrase (.level .product) true} (h' : right.Climbs limit) :
    (signed left right).Climbs limit := by
  intro p t rest scope depth stands follows room
  obtain ⟨more, starts⟩ := right.tokens_eq_first
  obtain ⟨isSigned, value, inRange⟩ := right.first_of_split rfl
  rw [signed_append, starts, List.cons_append] at stands
  change Room limit (depth + Level.sum.allowance + 5 * max left.nesting right.nesting) at room
  obtain ⟨first, p', q, begins, continues, there⟩ :=
    h stands (.signed isSigned inRange) (room.mono (by omega))
  have number := there.token_eq
  rw [← List.cons_append, ← starts] at there
  obtain ⟨_, _, r, ⟨value', isSigned', inRange', rfl, rfl⟩, goesOn, finish⟩ :=
    h' there follows.next (room.mono (by simp only [Level.allowance]; omega))
  have stops : Stops .sum r.token := by
    rw [finish.token_eq]
    exact follows.stops
  have reads : Reads limit (.following .signedNumber (left.tree scope).1) q _ _ :=
    .signedNumber isSigned'
    (by rw [splitFirst_literal]; exact inRange')
    (by rw [splitFirst_literal]; exact goesOn _ _ _ (by decide) (.complete stops))
  rw [splitFirst_literal, number] at reads
  rw [number] at isSigned' inRange'
  refine ⟨first, p', r, begins, ?_, finish⟩
  have follows' : q.token.kind.following? = some .signedNumber := by
    rw [number]
    exact Token.following?_of_numeral inRange'
  rcases Token.kind_of_numeral inRange' with kind | kind <;>
    exact continues.turn (by rw [number]; simp [Token.precedence, kind, isSigned']; decide)
      follows' reads

/-! ### Expressions -/

theorem climbs_assignment (target : Terminal .identifier) (assign : Terminal .assign)
    {value : Phrase (.level .expression) false} (h : value.Climbs limit) :
    (assignment target assign value).Climbs limit := by
  intro p t rest scope depth stands follows room
  have kind := stands.kind_eq
  have there := stands.pass (by decide)
  have behind := (there.pass (by decide)).declare target.1.literal
  have begins : Reads limit (.leading .name) p _ _ := .name kind (.inr there.kind_eq)
  rw [stands.token_eq, stands.scope_eq] at begins
  change Room limit (depth + Level.expression.allowance + 5 * (value.nesting + 1)) at room
  obtain ⟨_, q, reads, finish⟩ := h.whole behind follows
    (room.mono (by simp only [Level.allowance]; omega))
  have assigns : Reads limit (.following .assignment (.identifier
      ⟨target.1, scope.contains target.1.literal⟩ target.1.position)) p.advance _ _ :=
    .assignment there.kind_eq reads
  rw [there.token_eq] at assigns
  refine ⟨_, p.advance, q, ⟨.name, by rw [kind]; rfl, begins⟩, ?_, finish⟩
  exact Continues.refl.turn (by simp [Token.precedence, there.kind_eq]; decide)
    (by rw [there.kind_eq]; rfl) assigns

theorem climbs_conditional {condition : Phrase (.level .equality) false}
    (h : condition.Climbs limit) (question : Terminal .question)
    {ifTrue : Phrase (.level .expression) false} (h' : ifTrue.Climbs limit)
    (colon : Terminal .colon) {ifFalse : Phrase (.level .expression) false}
    (h'' : ifFalse.Climbs limit) :
    (conditional condition question ifTrue colon ifFalse).Climbs limit := by
  intro p t rest scope depth stands follows room
  rw [conditional_append] at stands
  change Room limit (depth + Level.conditional.allowance + 5 * max condition.nesting
    (max (ifTrue.nesting + 1) (ifFalse.nesting + 1))) at room
  simp only [Level.allowance] at room
  obtain ⟨left, p', p₁, begins, continues, there⟩ :=
    h stands (.question question) (room.mono (by simp only [Level.allowance]; omega))
  obtain ⟨_, p₂, readsTrue, between⟩ := h'.whole (there.pass (by decide))
    (.separator colon (.inr (.inr (.inl rfl)))) (room.mono (by omega))
  have same : p₂.skipLines = p₂ := between.lines (by simp [colon.2])
  have noList : Follows .expression t := ⟨follows.noList, follows.noTarget, follows.noArgument,
    follows.stops⟩
  obtain ⟨_, q, readsFalse, finish⟩ := h''.whole (between.pass (by decide)) noList
    (room.mono (by omega))
  have whole : Reads limit (.following .ternary (condition.tree scope).1) p₁ _ _ :=
    .ternary there.kind_eq readsTrue
    (by rw [same, between.kind_eq]) (by rwa [same])
  rw [there.token_eq] at whole
  refine ⟨left, p', q, begins, ?_, finish⟩
  have turned : Continues limit .ternary left p' (condition.tree scope).1 p₁ :=
    continues.mono (by decide)
  exact turned.turn (by simp [Token.precedence, there.kind_eq])
    (by rw [there.kind_eq]; rfl) whole

/-- The reader climbs every derivation. -/
theorem climbs (limit : Option Nat) {category : Category} {split : Bool}
    (x : Phrase category split) : x.Climbs limit := by
  induction x with
  | assignment target assign _ value => exact climbs_assignment target assign value
  | conditional _ question _ colon _ condition ifTrue ifFalse =>
      exact climbs_conditional condition question ifTrue colon ifFalse
  | operation operator _ token _ left right => exact climbs_operation operator left token right
  | signed _ _ left right => exact climbs_signed left right
  | send _ dot message receiver => exact climbs_send receiver dot message
  | sendCall _ dot message _ receiver args => exact climbs_sendCall receiver dot message args
  | tighter isLoose _ inner => exact climbs_tighter isLoose inner
  | number _ _ inRange => exact climbs_number inRange
  | digits _ _ isSigned inRange => exact climbs_digits isSigned inRange
  | string token => exact climbs_string token
  | symbol token => exact climbs_symbol token
  | trueLiteral token => exact climbs_trueLiteral token
  | falseLiteral token => exact climbs_falseLiteral token
  | nilLiteral token => exact climbs_nilLiteral token
  | name token => exact climbs_name token
  | call callee _ args => exact climbs_call callee args
  | group opening _ closing inner => exact climbs_group opening inner closing
  | emptyGroup opening closing => exact climbs_emptyGroup opening closing
  | noArguments opening closing => exact climbs_noArguments opening closing
  | arguments opening _ list => exact climbs_arguments opening list
  | lastArgument _ closing arg => exact climbs_lastArgument arg closing
  | argument _ comma _ arg rest => exact climbs_argument arg comma rest

end Phrase

end RubyReader
