/-
# `Parentheses` — around the last arguments they make no difference

A program that ends with a call whose arguments are in parentheses is read as the same tree,
up to places, without them, and declares the same variables, if what stands between them is
on one line and begins as bare arguments do (`program_unwrapped`).  The call is the whole
program, of a name that is no variable; or it is a message behind anything, with any number
of operators, conditionals and bare calls that are still open.
-/
import Mathlib
import RubyReader.Proofs.Printing
import RubyReader.Proofs.Reading.Crossing
import RubyReader.Proofs.Reading.Steps

namespace RubyReader

/-! ## Tokens at other places -/

/-- Tokens that are the same up to places are read as the same tree, up to places, and with
the same variables. -/
theorem Parser.program_of_relocate {tokens tokens' : List Token} {scope symbols : Names}
    {node : Node} {q : Parser} (accepted : (ofTokens tokens scope symbols).program = (.ok node, q))
    (same : tokens'.map (Token.relocate nowhere) = tokens.map (Token.relocate nowhere)) :
    ∃ node' q', (ofTokens tokens' scope symbols).program = (.ok node', q') ∧
      node'.Alike node ∧ q'.scope = q.scope := by
  obtain ⟨nodes, rfl, reads⟩ := program_eq_ok_iff.mp accepted
  obtain ⟨nodes', q', reads', alike, scope_eq⟩ := reads.glued_ofTokens (.of_relocate same)
  exact ⟨_, q', program_eq_ok_iff.mpr ⟨nodes', rfl, reads'⟩, .block alike, scope_eq⟩

theorem Cursor.tokens_ofTokens {tokens : List Token} :
    (ofTokens tokens).tokens = (ofTokens tokens).upcoming := by
  rw [tokens_eq, before_ofTokens]
  rfl

/-- Behind some tokens stands an end of the input, given or added. -/
theorem Cursor.exists_tail (front tokens : List Token) {ending : List Token}
    (e : tokens = front ++ ending) (ends : Ending ending) :
    ∃ tail, Ending tail ∧ (ofTokens tokens).upcoming = front ++ tail := by
  subst e
  obtain ⟨more, all, eof⟩ := exists_tokens_ofTokens (front ++ ending)
  rw [tokens_ofTokens, List.append_assoc] at all
  refine ⟨ending ++ more, ?_, all⟩
  cases ending with
  | nil => exact fun token mem => eof token (List.mem_of_mem_head? mem)
  | cons token rest => exact ends

/-! ## A call that is the whole program -/

section

variable {limit : Option Nat} {p p' q : Parser} {tokens tail tail' : List Token}
  {name opening closing : Token}

theorem Reads.selfCall_unwrapped {node : Node} (list : ArgumentTokens tokens)
    (opens : opening.kind = .lparen) (closes : closing.kind = .rparen) (ends : Ending tail)
    (ends' : Ending tail') (h : Reads limit (.expression .lowest) p node q)
    (named : name.kind = .identifier) (unknown : name.literal ∉ p.scope)
    (upcoming : p.cursor.upcoming = name :: opening :: (tokens ++ closing :: tail))
    (upcoming' : p'.cursor.upcoming = name :: (tokens ++ tail')) (scope : p'.scope = p.scope)
    (depth : p'.depth = p.depth) :
    ∃ q', Reads limit (.expression .lowest) p' node q' ∧ Site.Finished q q' := by
  have here : p.token = name := Parser.token_of_upcoming upcoming
  have here' : p'.token = name := Parser.token_of_upcoming upcoming'
  have isName : p.token.kind = .identifier := by rwa [here]
  have isName' : p'.token.kind = .identifier := by rwa [here']
  have behind := Parser.upcoming_advance (by rw [isName]; decide) upcoming
  have behind' := Parser.upcoming_advance (by rw [isName']; decide) upcoming'
  have paren : p.advance.token.kind = .lparen := by
    rwa [Parser.token_of_upcoming behind]
  have inside := Parser.upcoming_advance (p := p.advance) (by rw [paren]; decide) behind
  have begins := list.beginsBareArgument behind'
  have lines : p.skipLines = p := Parser.skipLines_of_ne (by rw [isName]; decide)
  have lines' : p'.skipLines = p' := Parser.skipLines_of_ne (by rw [isName']; decide)
  have opened : p.opened.skipLines = p.opened := congrArg Parser.opened lines
  have opened' : p'.opened.skipLines = p'.opened := congrArg Parser.opened lines'
  cases h with
  | @expression _ form _ p₁ q₁ left _ room leads first rest =>
      rw [lines, isName] at leads
      obtain rfl : LeadingForm.name = form := Option.some.inj leads
      rw [opened] at first
      cases first with
      | name _ known =>
          rcases known with known | assign
          · exact absurd known (by rwa [Parser.token_opened, here])
          · exact absurd (paren.symm.trans assign) (by decide)
      | selfCall _ _ _ _ =>
          obtain ⟨args, q', rfl, eof, reads, eof', scope_eq⟩ :=
            rest.call_reopened (p'.opened.advance.intern p'.token.literal) closes ends
              (by decide) paren list inside ends' behind' scope (congrArg (· + 1) depth)
          have unknown' : p'.token.literal ∉ p'.scope := by rwa [here', scope]
          have noTarget : p'.advance.token.kind ≠ .assign := by
            intro assign
            rw [Token.beginsBareArgument, assign] at begins
            cases begins
          have first' : Reads limit (.leading .name) p'.opened _ q' :=
            .selfCallWith isName' unknown' noTarget begins reads
          have same : p'.opened.token = p.opened.token := here'.trans here.symm
          have room' : p'.isFull limit = false := by
            rw [Parser.isFull, depth]
            exact room
          have leads' : p'.skipLines.token.kind.leading? = some .name := by
            rw [lines', isName']
            rfl
          rw [same, ← opened'] at first'
          exact ⟨q'.closed, .expression room' leads' first' (.complete_of_eof eof'), eof, eof',
            scope_eq⟩
      | selfCallWith _ _ _ begins _ =>
          have paren : p.opened.advance.token.kind = .lparen := paren
          rw [Token.beginsBareArgument, paren] at begins
          cases begins

end

/-! ## Programs -/

section

variable {args ending ending' : List Token} {opening closing : Token} {scope symbols : Names}

/-- If a program is accepted, the other tokens are as well, at any places: as the same tree,
up to places, and with the same variables. -/
def ReadAs (scope symbols : Names) (tokens other : List Token) : Prop :=
  ∀ node q, (Parser.ofTokens tokens scope symbols).program = (.ok node, q) →
    ∀ other', other'.map (Token.relocate nowhere) = other.map (Token.relocate nowhere) →
      ∃ node' q', (Parser.ofTokens other' scope symbols).program = (.ok node', q') ∧
        node'.Alike node ∧ q'.scope = q.scope

theorem ReadAs.of_same {tokens other : List Token}
    (same : ∀ node q, (Parser.ofTokens tokens scope symbols).program = (.ok node, q) →
      ∃ q', (Parser.ofTokens other scope symbols).program = (.ok node, q') ∧
        q'.scope = q.scope) : ReadAs scope symbols tokens other := by
  intro node q accepted other' places
  obtain ⟨q', accepted', scope_eq⟩ := same node q accepted
  obtain ⟨node', q'', again, alike, scope_eq'⟩ := Parser.program_of_relocate accepted' places
  exact ⟨node', q'', again, alike, scope_eq'.trans scope_eq⟩

theorem readAs_selfCall (list : ArgumentTokens args) (opens : opening.kind = .lparen)
    (closes : closing.kind = .rparen) (ends : Ending ending) (ends' : Ending ending')
    {name : Token} (named : name.kind = .identifier) (unknown : name.literal ∉ scope) :
    ReadAs scope symbols (name :: opening :: (args ++ closing :: ending))
      (name :: (args ++ ending')) := by
  refine .of_same fun node q accepted => ?_
  obtain ⟨nodes, rfl, reads⟩ := Parser.program_eq_ok_iff.mp accepted
  obtain ⟨tail, isEnd, all⟩ := Cursor.exists_tail (name :: opening :: (args ++ [closing]))
    (name :: opening :: (args ++ closing :: ending)) (by simp) ends
  obtain ⟨tail', isEnd', all'⟩ := Cursor.exists_tail (name :: args)
    (name :: (args ++ ending')) (by simp) ends'
  simp only [List.cons_append, List.append_assoc, List.nil_append] at all all'
  let p := Parser.ofTokens (name :: opening :: (args ++ closing :: ending)) scope symbols
  let p' := Parser.ofTokens (name :: (args ++ ending')) scope symbols
  have bare : p'.cursor.upcoming = name :: (args ++ tail') := all'
  have here : p.token.kind = .identifier := named
  have lines : p.skipLines = p := Parser.skipLines_of_ne (by rw [here]; decide)
  cases reads with
  | noStatement atEnd =>
      have atEnd : p.skipLines.token.kind = .eof := atEnd.elim id id
      rw [lines, here] at atEnd
      cases atEnd
  | @statement _ _ p₁ _ node _ _ _ first _ rest =>
      have first : Reads (some nestingLimit) (.expression .lowest) p.skipLines node p₁ := first
      rw [lines] at first
      obtain ⟨q', again, done⟩ := first.selfCall_unwrapped list opens closes isEnd
        isEnd' named unknown all bare rfl rfl
      rw [done.skipLines_eq] at rest
      obtain ⟨rfl, rfl⟩ := rest.statements_eq done.eof
      obtain ⟨q'', statements, scope_eq⟩ := again.only_statement done.eof'
      exact ⟨q'', Parser.program_eq_ok_iff.mpr ⟨[node], rfl, statements⟩,
        scope_eq.trans done.scope_eq⟩

/-- Both inputs begin with the same tokens, up to the dot and the name. -/
theorem Site.Twins.ofTokens {s : Site} {tokens tokens' : List Token}
    (wrapped : (Cursor.ofTokens tokens).tokens = s.wrapped)
    (bare : (Cursor.ofTokens tokens').tokens = s.bare) :
    s.Twins (.ofTokens tokens scope symbols) (.ofTokens tokens' scope symbols) where
  agree := by
    refine Parser.agree_ofTokens scope symbols ?_
    have length : (s.front ++ [s.dot, s.name]).length = s.place + 1 + 1 := by
      rw [List.length_append]
      rfl
    have front (rest : List Token) :
        (s.front ++ s.dot :: s.name :: rest).take (s.place + 1 + 1) = s.front ++ [s.dot, s.name] := by
      rw [← length, ← @List.take_left _ (s.front ++ [s.dot, s.name]) rest]
      simp
    rw [wrapped, bare, Site.wrapped, Site.bare, front, front]
  le := by
    show (Cursor.ofTokens tokens).before.length ≤ _
    rw [Cursor.before_ofTokens]
    exact Nat.zero_le _
  tokens_eq := wrapped
  tokens_eq' := bare

theorem readAs_send (list : ArgumentTokens args) (opens : opening.kind = .lparen)
    (closes : closing.kind = .rparen) (ends : Ending ending) (ends' : Ending ending')
    (front : List Token) {dot name : Token} (isDot : dot.kind = .dot)
    (named : name.kind = .identifier) :
    ReadAs scope symbols (front ++ dot :: name :: opening :: (args ++ closing :: ending))
      (front ++ dot :: name :: (args ++ ending')) := by
  refine .of_same fun node q accepted => ?_
  obtain ⟨nodes, rfl, reads⟩ := Parser.program_eq_ok_iff.mp accepted
  obtain ⟨tail, isEnd, all⟩ := Cursor.exists_tail
    (front ++ dot :: name :: opening :: (args ++ [closing]))
    (front ++ dot :: name :: opening :: (args ++ closing :: ending)) (by simp) ends
  obtain ⟨tail', isEnd', all'⟩ := Cursor.exists_tail (front ++ dot :: name :: args)
    (front ++ dot :: name :: (args ++ ending')) (by simp) ends'
  simp only [List.cons_append, List.append_assoc, List.nil_append] at all all'
  let s : Site := ⟨front, dot, name, opening, args, closing, tail, tail', isDot, named, opens,
    closes, list, isEnd, isEnd'⟩
  have twins : s.Twins
      (.ofTokens (front ++ dot :: name :: opening :: (args ++ closing :: ending)) scope symbols)
      (.ofTokens (front ++ dot :: name :: (args ++ ending')) scope symbols) :=
    .ofTokens (Cursor.tokens_ofTokens.trans all) (Cursor.tokens_ofTokens.trans all')
  have position := congrArg Token.position twins.token_eq
  rcases twins.follow reads trivial (reads.reopens s) with
    ⟨q', again, there⟩ | ⟨q', again, done⟩
  · exact ⟨q', Parser.program_eq_ok_iff.mpr ⟨nodes, by rw [position], again⟩,
      there.agree.scope_eq⟩
  · exact ⟨q', Parser.program_eq_ok_iff.mpr ⟨nodes, by rw [position], again⟩, done.scope_eq⟩

/-- Parentheses around the arguments of the last call, which its last token closes, may be left
out: behind a name that is no variable and begins the program, and behind a message, whatever
stands in front of it. -/
theorem program_unwrapped (list : ArgumentTokens args) (opens : opening.kind = .lparen)
    (closes : closing.kind = .rparen) (ends : Ending ending) (ends' : Ending ending')
    (scope symbols : Names) :
    (∀ name : Token, name.kind = .identifier → name.literal ∉ scope →
      ReadAs scope symbols (name :: opening :: (args ++ closing :: ending))
        (name :: (args ++ ending'))) ∧
    ∀ (front : List Token) (dot name : Token), dot.kind = .dot → name.kind = .identifier →
      ReadAs scope symbols (front ++ dot :: name :: opening :: (args ++ closing :: ending))
        (front ++ dot :: name :: (args ++ ending')) :=
  ⟨fun _ named unknown => readAs_selfCall list opens closes ends ends' named unknown,
    fun front _ _ isDot named => readAs_send list opens closes ends ends' front isDot named⟩

/-- The tokens of `g(1), (2)`, from a column on. -/
def sampleArguments (column : Nat) : List Token :=
  [.new .identifier "g" ⟨1, column⟩, .new .lparen "(" ⟨1, column + 1⟩,
    .new .integer "1" ⟨1, column + 2⟩, .new .rparen ")" ⟨1, column + 3⟩,
    .new .comma "," ⟨1, column + 4⟩, .new .lparen "(" ⟨1, column + 6⟩,
    .new .integer "2" ⟨1, column + 7⟩, .new .rparen ")" ⟨1, column + 8⟩]

theorem argumentTokens_sample (column : Nat) : ArgumentTokens (sampleArguments column) where
  oneLine := of_decide_eq_true rfl
  balanced := of_decide_eq_true rfl
  begins := ⟨_, rfl, rfl⟩
  goOn := of_decide_eq_true rfl

/-- A call with these arguments, and a message behind a product, inside a conditional and a
bare call. -/
theorem program_unwrapped_of_texts :
    (∃ node q node' q',
      (Parser.ofTokens (lex "f(g(1), (2))").tokens .empty .empty).program = (.ok node, q) ∧
      (Parser.ofTokens (lex "f g(1), (2)").tokens .empty .empty).program = (.ok node', q') ∧
      node'.Alike node ∧ q'.scope = q.scope) ∧
    ∃ node q node' q',
      (Parser.ofTokens (lex "p 0, x ? y : 3 * z.m(g(1), (2))").tokens .empty .empty).program
        = (.ok node, q) ∧
      (Parser.ofTokens (lex "p 0, x ? y : 3 * z.m g(1), (2)").tokens .empty .empty).program
        = (.ok node', q') ∧
      node'.Alike node ∧ q'.scope = q.scope := by
  let end' : List Token := [.endOfInput .start]
  have ends : Ending end' := .cons rfl
  let name : Token := .new .identifier "f" ⟨1, 1⟩
  let front : List Token :=
    [.new .identifier "p" ⟨1, 1⟩, .new .integer "0" ⟨1, 3⟩, .new .comma "," ⟨1, 4⟩,
      .new .identifier "x" ⟨1, 6⟩, .new .question "?" ⟨1, 8⟩, .new .identifier "y" ⟨1, 10⟩,
      .new .colon ":" ⟨1, 12⟩, .new .integer "3" ⟨1, 14⟩, .new .times "*" ⟨1, 16⟩,
      .new .identifier "z" ⟨1, 18⟩]
  let dot : Token := .new .dot "." ⟨1, 19⟩
  let message : Token := .new .identifier "m" ⟨1, 20⟩
  constructor
  · obtain ⟨node, q, accepted⟩ := exists_of_isOk
      ((Parser.ofTokens (lex "f(g(1), (2))").tokens .empty .empty).program) (by cbv)
    have tokens : (lex "f(g(1), (2))").tokens = name :: .new .lparen "(" ⟨1, 2⟩ ::
        (sampleArguments 3 ++ .new .rparen ")" ⟨1, 12⟩ :: [.endOfInput ⟨1, 13⟩]) := by cbv
    have same : (lex "f g(1), (2)").tokens.map (Token.relocate nowhere)
        = (name :: (sampleArguments 3 ++ end')).map (Token.relocate nowhere) := by cbv
    have read := accepted
    rw [tokens] at read
    obtain ⟨node', q', again, alike, scope⟩ := (program_unwrapped (argumentTokens_sample 3) rfl rfl
      (.cons rfl) ends .empty .empty).1 name rfl (by decide) node q read _ same
    exact ⟨node, q, node', q', accepted, again, alike, scope⟩
  · obtain ⟨node, q, accepted⟩ := exists_of_isOk
      ((Parser.ofTokens (lex "p 0, x ? y : 3 * z.m(g(1), (2))").tokens .empty .empty).program)
      (by cbv)
    have tokens : (lex "p 0, x ? y : 3 * z.m(g(1), (2))").tokens = front ++ dot :: message ::
        .new .lparen "(" ⟨1, 21⟩ ::
          (sampleArguments 22 ++ .new .rparen ")" ⟨1, 31⟩ :: [.endOfInput ⟨1, 32⟩]) := by cbv
    have same : (lex "p 0, x ? y : 3 * z.m g(1), (2)").tokens.map (Token.relocate nowhere)
        = (front ++ dot :: message :: (sampleArguments 22 ++ end')).map
            (Token.relocate nowhere) := by cbv
    have read := accepted
    rw [tokens] at read
    obtain ⟨node', q', again, alike, scope⟩ := (program_unwrapped (argumentTokens_sample 22) rfl
      rfl (.cons rfl) ends .empty .empty).2 front dot message rfl rfl node q read _ same
    exact ⟨node, q, node', q', accepted, again, alike, scope⟩

end

end RubyReader
