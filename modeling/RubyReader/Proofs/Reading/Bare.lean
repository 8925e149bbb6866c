/-
# `Bare` — arguments without their parentheses

Arguments that stand between parentheses on one line, up to the end of the input, are read
again without the parentheses, as the same trees (`Reads.bareArguments`).  Each of them
ends in front of a comma that both lists have, or at the end: there the one list has its
closing parenthesis, the other the end of the input, and nothing goes on with either.
-/
import RubyReader.Proofs.Closing
import RubyReader.Proofs.Reading.Levels

namespace RubyReader

/-- Tokens on one line with balanced parentheses. -/
structure Enclosed (tokens : List Token) : Prop where
  oneLine : ∀ token ∈ tokens, token.kind ≠ .newline
  balanced : Balanced tokens

theorem Enclosed.of_append {front rest : List Token} (h : Enclosed (front ++ rest))
    (level : nesting front = 0) : Enclosed rest :=
  ⟨fun token mem => h.oneLine token (List.mem_append_right _ mem), h.balanced.of_append level⟩

/-! ## Between the parentheses -/

section

variable {limit : Option Nat} {p p' q : Parser} {tokens tail tail' : List Token} {closing : Token}
  {head : ∀ token ∈ (closing :: tail).head?, token.Closes}
  {head' : ∀ token ∈ tail'.head?, token.Closes}

theorem Enclosed.skipLines_eq (inside : Enclosed tokens) (closes : closing.kind = .rparen)
    (upcoming : p.cursor.upcoming = tokens ++ closing :: tail) : p.skipLines = p := by
  refine Parser.skipLines_of_ne ?_
  cases tokens with
  | nil =>
      rw [Parser.token_of_upcoming upcoming, closes]
      decide
  | cons token rest =>
      rw [Parser.token_of_upcoming upcoming]
      exact inside.oneLine token List.mem_cons_self

/-- Where a parenthesis closes behind enclosed tokens, it is the one behind them all. -/
theorem Enclosed.eq_nil (inside : Enclosed tokens) (closes : p.token.kind = .rparen)
    (upcoming : p.cursor.upcoming = tokens ++ closing :: tail) : tokens = [] := by
  cases tokens with
  | nil => rfl
  | cons token rest =>
      rw [Parser.token_of_upcoming upcoming] at closes
      exact absurd closes inside.balanced.head_ne

/-- Where a comma stands among enclosed tokens and a parenthesis behind them, it is the
first of them. -/
theorem Enclosed.exists_comma (closes : closing.kind = .rparen) (comma : p.token.kind = .comma)
    (upcoming : p.cursor.upcoming = tokens ++ closing :: tail) :
    ∃ rest, tokens = p.token :: rest := by
  cases tokens with
  | nil =>
      rw [Parser.token_of_upcoming upcoming, closes] at comma
      cases comma
  | cons token rest => exact ⟨rest, by rw [Parser.token_of_upcoming upcoming]⟩

/-- Of an expression that begins in front of enclosed tokens the rest of them is enclosed as
well, and it is read again where they stand without the closing parenthesis. -/
theorem Reads.argument_again {arg : Node} (closes : closing.kind = .rparen) (ends : Ending tail)
    (h : Reads limit (.expression .lowest) p arg q) (inside : Enclosed tokens)
    (upcoming : p.cursor.upcoming = tokens ++ closing :: tail)
    (same : Beside (.moved id head head') p p') :
    ∃ rest q', Enclosed rest ∧ q.cursor.upcoming = rest ++ closing :: tail ∧
      Reads limit (.expression .lowest) p' arg q' ∧ Beside (.moved id head head') q q' := by
  obtain ⟨passed, before, split, goOn⟩ := h.onward
    (show (Goal.expression .lowest).Starts p.cursor from trivial)
  have level : nesting passed = 0 := by
    have same := h.level_eq
    rw [Parser.level, Parser.level, before, nesting_append, nesting_reverse] at same
    have none : (Goal.expression .lowest).closes = 0 := rfl
    omega
  obtain ⟨rest, rfl, behind⟩ :=
    inside.balanced.exists_rest closes ends level goOn (upcoming.symm.trans split)
  obtain ⟨q', reads, there⟩ := h.expression_moved (.of_upcoming behind) same
  rw [Node.relocate_id] at reads
  exact ⟨rest, q', inside.of_append level, behind, reads, there.toBeside⟩

/-- Arguments in parentheses, up to the end of the input, are read as bare arguments where
their tokens stand without the closing parenthesis. -/
theorem Reads.bareArguments {args : List Node} (closes : closing.kind = .rparen)
    (ends : Ending tail) (ends' : Ending tail') (h : Reads limit .arguments p args q)
    (inside : Enclosed tokens) (upcoming : p.cursor.upcoming = tokens ++ closing :: tail)
    (same : Beside (.moved id head head') p p') :
    q.cursor.upcoming = tail ∧ ∃ q', Reads limit .bareArguments p' args q' ∧
      q'.cursor.upcoming = tail' ∧ q'.scope = q.scope := by
  induction args generalizing p p' tokens with
  | nil => exact absurd rfl h.arguments_ne_nil
  | cons arg args ih =>
      cases h with
      | @lastArgument _ q₁ _ first paren =>
          obtain ⟨rest, q', enclosed, behind, reads, there⟩ :=
            first.argument_again closes ends inside upcoming same
          rw [enclosed.skipLines_eq closes behind] at paren ⊢
          obtain rfl := enclosed.eq_nil paren behind
          have final : q'.cursor.upcoming = tail' := by
            obtain ⟨front, all, all'⟩ := there.exists_front
            obtain rfl : front = [] := List.self_eq_append_left.mp (behind.symm.trans all)
            exact all'
          have noComma : q'.token.kind ≠ .comma := by
            have eof : q'.token.kind = .eof := ends' _ (by rw [← final]; rfl)
            rw [eof]
            decide
          refine ⟨?_, q', .lastBareArgument reads noComma, final, there.scope_eq⟩
          exact Parser.upcoming_advance (by rw [paren]; decide) behind
      | @argument _ q₁ _ _ _ first comma more =>
          obtain ⟨rest, q₁', enclosed, behind, reads, there⟩ :=
            first.argument_again closes ends inside upcoming same
          rw [enclosed.skipLines_eq closes behind] at comma more
          obtain ⟨others, rfl⟩ := Enclosed.exists_comma closes comma behind
          have further : q₁.advance.cursor.upcoming = others ++ closing :: tail :=
            Parser.upcoming_advance (by rw [comma]; decide) behind
          have ne : q₁.token.kind ≠ .eof := by rw [comma]; decide
          have inStep :=
            there.inStep_of_within ((Parser.UpTo.of_upcoming further).within ne)
          have comma' : q₁'.token.kind = .comma := by rwa [inStep.kind_eq]
          have level : nesting [q₁.token] = 0 := by
            rw [nesting_cons, comma]
            rfl
          have enclosed : Enclosed ([q₁.token] ++ others) := enclosed
          obtain ⟨final, q', list, final', scope⟩ :=
            ih more (enclosed.of_append level) further (inStep.advance ne).toBeside
          exact ⟨final, q', .bareArgument reads comma' list, final', scope⟩

/-! ## Behind a call without arguments

The list ends at the end of the input, where no statement follows and no expression goes on. -/

theorem Reads.statements_eq {terminator : TokenKind} {nodes : List Node}
    (ends : p.token.kind = .eof) (h : Reads limit (.statements terminator) p nodes q) :
    nodes = [] ∧ q = p := by
  have lines : p.skipLines = p := Parser.skipLines_of_ne (by rw [ends]; decide)
  cases h with
  | noStatement _ => exact ⟨rfl, lines⟩
  | statement _ noEnd _ _ _ =>
      rw [lines] at noEnd
      exact absurd ends noEnd

/-- At the end of the input an expression is complete. -/
theorem Reads.complete_of_eof {left : Node} {min : Precedence} (ends : p.token.kind = .eof) :
    Reads limit (.continuation left min) p left p := .complete fun _ => by rw [ends]; rfl

/-- Tokens that arguments may be read from without parentheses. -/
structure ArgumentTokens (tokens : List Token) : Prop extends Enclosed tokens where
  begins : ∃ first ∈ tokens.head?, first.beginsBareArgument = true
  goOn : ∀ token ∈ tokens, token.kind ≠ .eof

theorem ArgumentTokens.beginsBareArgument (list : ArgumentTokens tokens)
    (upcoming : p.cursor.upcoming = tokens ++ tail) : p.token.beginsBareArgument = true := by
  obtain ⟨first, mem, begins⟩ := list.begins
  cases tokens with
  | nil => cases mem
  | cons other rest =>
      obtain rfl := Option.some.inj mem
      rwa [Parser.token_of_upcoming upcoming]

variable (p') in
/-- Where a call without arguments is continued by arguments in parentheses, up to the end of
the input, these are read as bare arguments where their tokens stand alone. -/
theorem Reads.call_reopened {receiver node : Node} {message : Symbol} {position : Position}
    {min : Precedence} (closes : closing.kind = .rparen) (ends : Ending tail)
    (h : Reads limit (.continuation (.call receiver message [] position) min) p node q)
    (lt : min < .call) (opens : p.token.kind = .lparen) (list : ArgumentTokens tokens)
    (upcoming : p.advance.cursor.upcoming = tokens ++ closing :: tail) (ends' : Ending tail')
    (upcoming' : p'.cursor.upcoming = tokens ++ tail') (scope : p'.scope = p.scope)
    (depth : p'.depth = p.depth) :
    ∃ args q', node = .call receiver message args position ∧ q.token.kind = .eof ∧
      Reads limit .bareArguments p' args q' ∧ q'.token.kind = .eof ∧ q'.scope = q.scope := by
  have begins := list.beginsBareArgument upcoming
  have lines : p.advance.skipLines = p.advance := list.skipLines_eq closes upcoming
  have noParen : p.advance.token.kind ≠ .rparen := by
    intro paren
    rw [Token.beginsBareArgument, paren] at begins
    cases begins
  have head : ∀ token ∈ (closing :: tail).head?, token.Closes := by
    simp [Token.Closes, closes]
  have head' : ∀ token ∈ tail'.head?, token.Closes := fun t mem => .inr (.inl (ends' t mem))
  have same : Beside (.moved id head head') p.advance p' := by
    refine .of_front upcoming ?_ scope (Nat.le_of_eq depth)
    rw [upcoming']
    exact congrArg (· ++ tail') (List.map_id _).symm
  cases h with
  | @longer _ form _ q₁ _ _ _ _ _ follows reads rest =>
      rw [opens] at follows
      obtain rfl : FollowingForm.call = form := Option.some.inj follows
      cases reads with
      | emptyCallAgain _ _ closing =>
          rw [lines] at closing
          exact absurd closing noParen
      | @callAgain _ _ _ _ _ args _ _ _ inside =>
          rw [lines] at inside
          obtain ⟨final, q', reads, final', scope⟩ :=
            inside.bareArguments closes ends ends' list.toEnclosed upcoming same
          have eof : q₁.token.kind = .eof := ends _ (by rw [← final]; rfl)
          have eof' : q'.token.kind = .eof := ends' _ (by rw [← final']; rfl)
          obtain ⟨rfl, rfl⟩ := rest.continuation_eq (by rw [eof]; rfl)
          exact ⟨args, q', rfl, eof, reads, eof', scope⟩
  | complete stops =>
      have none := stops (by rwa [Token.precedence, opens])
      rw [opens] at none
      cases none

end

end RubyReader
