/-
# `Closing` — what closes an expression does not matter to it

A line end, the end of the input, a closing parenthesis, an `end` and a colon all close an
expression, and it makes no difference which of them does, nor what stands in front of the
expression (`Reads.elsewhere`).  So an expression can be taken to other tokens; above all, a
program of one statement can be put in parentheses (`expression_closed`).

In parentheses one more expression is open.  There the limit on nesting may be reached, so
the reading is freed from it before (`Reads.unlimited`).
-/
import Mathlib
import RubyReader.Proofs.Reading.Limit
import RubyReader.Proofs.Reading.Matching
import RubyReader.Proofs.Reading.Moments
import RubyReader.Proofs.Reading.Program
import RubyReader.Proofs.Reading.Statements

namespace RubyReader

/-! ## Tokens that are upcoming -/

/-- Nothing, or an end of the input with whatever stands behind it. -/
def Ending (tokens : List Token) : Prop := ∀ t ∈ tokens.head?, t.kind = .eof

theorem Ending.cons {token : Token} {rest : List Token} (ends : token.kind = .eof) :
    Ending (token :: rest) := by
  intro t mem
  rwa [← Option.some.inj mem]

/-- Tokens none of which ends the input, and of which neither the first nor the last is a line
end. -/
structure Trimmed (tokens : List Token) : Prop where
  goOn : ∀ t ∈ tokens, t.kind ≠ .eof
  head : ∀ t ∈ tokens.head?, t.kind ≠ .newline
  last : ∀ t ∈ tokens.getLast?, t.kind ≠ .newline

namespace Cursor

variable {c c' d : Cursor} {front ending : List Token}

theorem drop_index (c : Cursor) : c.tokens.drop c.index = c.upcoming := by
  rw [tokens_eq, index, ← List.length_reverse]
  exact List.drop_left

theorem getElem?_upcoming (c : Cursor) (k : Nat) : c.upcoming[k]? = c.tokens[c.index + k]? := by
  rw [← drop_index, List.getElem?_drop]

theorem upcoming_skipLines (c : Cursor) :
    c.skipLines.upcoming = c.upcoming.dropWhile fun token => token.kind = .newline := by
  induction c using lines_induction with
  | stop c other => rw [skipLines_of_ne other, upcoming, List.dropWhile_cons_of_neg (by simpa)]
  | step c newline ih =>
      rw [skipLines_of_newline newline, ih, upcoming_of_ne (c := c) (by simp [newline]),
        List.dropWhile_cons_of_pos (by simpa)]

/-- Line ends are skipped up to the first other token. -/
theorem upcoming_skipLines_of_lines {lines rest : List Token} {token : Token}
    (lines_newline : ∀ t ∈ lines, t.kind = .newline) (other : token.kind ≠ .newline)
    (all : c.upcoming = lines ++ token :: rest) : c.skipLines.upcoming = token :: rest := by
  rw [upcoming_skipLines, all, List.dropWhile_append_of_pos (by simpa using lines_newline),
    List.dropWhile_cons_of_neg (by simpa using other)]

theorem Onward.index_eq {passed : List Token} (before : c'.before = passed.reverse ++ c.before) :
    c'.index = c.index + passed.length := by
  rw [index, before, List.length_append, List.length_reverse, Nat.add_comm]
  rfl

theorem exists_passed (on : c.Onward c') (same : d.index = c.index)
    (agree : ∀ k, c.index ≤ k → k < c'.index → d.tokens[k]? = c.tokens[k]?) :
    ∃ passed tail, c.upcoming = passed ++ c'.upcoming ∧ d.upcoming = passed ++ tail ∧
      c'.index = c.index + passed.length ∧ tail.head? = d.tokens[c'.index]? := by
  obtain ⟨passed, before, upcoming, -⟩ := on
  have length := Onward.index_eq before
  have begins : passed <+: d.upcoming := by
    refine List.prefix_iff_getElem?.mpr fun k lt => ?_
    have here : c.upcoming[k]? = some passed[k] := by
      rw [upcoming, List.getElem?_append_left lt, List.getElem?_eq_getElem lt]
    have within : c.index + k < c'.index := length ▸ Nat.add_lt_add_left lt _
    rw [getElem?_upcoming] at here ⊢
    rw [same, agree _ (Nat.le_add_right _ _) within, here]
  obtain ⟨tail, all⟩ := begins
  refine ⟨passed, tail, upcoming, all.symm, length, ?_⟩
  rw [length, ← same, ← getElem?_upcoming, ← all, List.getElem?_append_right (Nat.le_refl _),
    Nat.sub_self, List.head?_eq_getElem?]

theorem exists_upcoming_ofTokens (goOn : ∀ t ∈ front, t.kind ≠ .eof)
    (ends : Ending ending) :
    ∃ last rest, (ofTokens (front ++ ending)).upcoming = front ++ last :: rest ∧
      last.kind = .eof := by
  obtain ⟨more, all, eof⟩ := exists_tokens_ofTokens (front ++ ending)
  rw [tokens_eq, before_ofTokens, List.append_assoc] at all
  have all : (ofTokens (front ++ ending)).upcoming = front ++ (ending ++ more) := all
  rcases behind : ending ++ more with _ | ⟨last, rest⟩
  · rw [behind, List.append_nil] at all
    refine absurd (ofTokens (front ++ ending)).ends (goOn _ ?_)
    have mem : _ ∈ (ofTokens (front ++ ending)).upcoming := List.getLast_mem (List.cons_ne_nil _ _)
    rw [all] at mem
    exact mem
  · refine ⟨last, rest, by rw [all, behind], ?_⟩
    cases ending with
    | nil => exact eof last (by simp_all)
    | cons token ending =>
        obtain ⟨rfl, -⟩ := List.cons.inj behind
        exact ends token rfl

end Cursor

/-! ## Among other tokens -/

section

variable {limit : Option Nat} {goal : Goal} {p q : Parser} {min : Precedence} {node : Node}

/-- What is read within a limit is read without one. -/
theorem Reads.unlimited {a : goal.Result} (h : Reads limit goal p a q) : Reads none goal p a q := by
  have found := Parser.read_eq_ok_iff.mpr h
  rcases Parser.read_limited limit goal p with same | ⟨token, refused⟩
  · exact Parser.read_eq_ok_iff.mp (same.trans found)
  · rw [found] at refused
    cases refused

theorem Reads.onward {a : goal.Result} (starts : goal.Starts p.cursor)
    (h : Reads limit goal p a q) : p.cursor.Onward q.cursor := by
  have on := Parser.read_onward limit starts
  rwa [Parser.read_eq_ok_iff.mpr h] at on

theorem Reads.expression_leads (h : Reads limit (.expression min) p node q) :
    ∃ form, p.skipLines.token.kind.leading? = some form := by
  cases h with
  | expression _ leads _ _ => exact ⟨_, leads⟩

/-- Line ends in front of an expression may have been passed before. -/
theorem Reads.expression_skipLines (h : Reads limit (.expression min) p node q) :
    Reads limit (.expression min) p.skipLines node q := by
  cases h with
  | expression room leads first rest =>
      have lines : p.skipLines.opened.skipLines = p.opened.skipLines :=
        Parser.skipLines_skipLines p.opened
      rw [← lines] at first
      exact .expression room (by rwa [Parser.skipLines_skipLines]) first rest

/-- An expression is complete in front of a token that goes on with none. -/
theorem Reads.continuation_eq {left : Node} (stops : p.token.kind.following? = none)
    (h : Reads limit (.continuation left min) p node q) : node = left ∧ q = p := by
  cases h with
  | longer _ follows _ _ =>
      rw [stops] at follows
      cases follows
  | complete _ => exact ⟨rfl, rfl⟩

/-- An expression is read again wherever its tokens stand, with one behind them that closes it
as well: behind any other token, at other places, and, without a limit, inside any other number
of expressions. -/
theorem Reads.elsewhere (move : Position → Position) (p' : Parser) {front tail : List Token}
    (h : Reads limit (.expression min) p node q)
    (before : p.cursor.upcoming = front ++ q.cursor.upcoming)
    (after : p'.cursor.upcoming = front.map (Token.relocate move) ++ tail)
    (closes : q.token.Closes) (closes' : ∀ t ∈ tail.head?, t.Closes)
    (scope : p'.scope = p.scope) (depth : limit = none ∨ p'.depth = p.depth) :
    ∃ q', Reads limit (.expression min) p' (node.relocate move) q' ∧
      q'.cursor.upcoming = tail ∧ q'.scope = q.scope := by
  -- in front of the other tokens, but still behind those that stand in front here
  let cursor : Cursor :=
    ⟨p.cursor.before, p'.cursor.current, p'.cursor.after, p'.cursor.ends⟩
  have head : ∀ t ∈ q.cursor.upcoming.head?, t.Closes := by
    intro t mem
    obtain rfl := Option.some.inj mem
    exact closes
  have same : Beside (.moved move head closes') p { p with cursor } :=
    .of_front before after rfl (Nat.le_refl _)
  have upTo : q.UpTo q.cursor.upcoming := Nat.le_refl _
  obtain ⟨q₁, reads, behind⟩ := h.expression_moved upTo same
  have facing : Parser.Facing limit (fun _ => True) { p with cursor } p' :=
    ⟨rfl, depth, fun _ _ => by rw [scope], fun _ _ _ => trivial⟩
  obtain ⟨q', reads', ⟨matching, names, grown, grown'⟩⟩ := reads.facing facing
  refine ⟨q', reads', ?_, ?_⟩
  · obtain ⟨rest, all, all'⟩ := behind.exists_front
    obtain rfl : rest = [] := List.self_eq_append_left.mp all
    exact matching.upcoming_eq.trans all'
  · refine (Names.ext ?_).trans behind.scope_eq
    rw [grown', grown, scope]

end

/-! ## Among tokens that are the same up to the end of the expression -/

/-- At an index of the tokens stands one that closes every expression. -/
def Cursor.ClosesAt (c : Cursor) (index : Nat) : Prop :=
  ∃ token, c.tokens[index]? = some token ∧ token.Closes

namespace Parser

/-- Two parsers at the same index, inside as many expressions, with the same tokens from there
up to another index. -/
structure SameUpTo (p p' : Parser) (stop : Nat) : Prop where
  index_eq : p'.cursor.index = p.cursor.index
  depth_eq : p'.depth = p.depth
  tokens_eq : ∀ k, p.cursor.index ≤ k → k < stop → p'.cursor.tokens[k]? = p.cursor.tokens[k]?

variable {p p' q : Parser} {min : Precedence} {scope after : Names} {node : Node}

theorem expression_eq_ok_iff : p.expression min scope = (.ok node, after, q) ↔
    ∃ r, Reads (some nestingLimit) (.expression min) (p.withScope scope) node r ∧
      after = r.scope ∧ q = r.withScope p.scope := by
  rw [expression, expressionWithin]
  split
  rename_i result r found
  simp only [Prod.mk.injEq]
  constructor
  · rintro ⟨rfl, rfl, rfl⟩
    exact ⟨r, read_eq_ok_iff.mp found, rfl, rfl⟩
  · rintro ⟨r', reads, rfl, rfl⟩
    obtain ⟨rfl, rfl⟩ := Prod.mk.inj (found.symm.trans (read_eq_ok_iff.mpr reads))
    exact ⟨rfl, rfl, rfl⟩

/-- Read from the same index, an expression is the same if the tokens are the same up to what
closes it. -/
theorem expression_of_closes (found : p.expression min scope = (.ok node, after, q))
    (same : p.SameUpTo p' q.cursor.index) (closes : p.cursor.ClosesAt q.cursor.index)
    (closes' : p'.cursor.ClosesAt q.cursor.index) :
    ∃ q', p'.expression min scope = (.ok node, after, q') ∧
      q'.cursor.index = q.cursor.index := by
  obtain ⟨index, depth, agree⟩ := same
  obtain ⟨r, reads, rfl, rfl⟩ := expression_eq_ok_iff.mp found
  have starts (c : Cursor) : (Goal.expression min).Starts c := trivial
  have on : (p.withScope scope).cursor.Onward r.cursor := reads.onward (starts _)
  obtain ⟨front, tail, before, behind, length, head⟩ :=
    Cursor.exists_passed (c := p.cursor) on index agree
  have closing : r.token.Closes := by
    obtain ⟨token, there, closing⟩ := closes
    have here := r.cursor.getElem?_index
    rw [reads.tokens_eq] at here
    obtain rfl := Option.some.inj (here.symm.trans there)
    exact closing
  have closing' : ∀ t ∈ tail.head?, t.Closes := by
    intro t mem
    obtain ⟨token, there, closing⟩ := closes'
    obtain rfl := Option.some.inj ((head.symm.trans mem).symm.trans there)
    exact closing
  have same : front.map (Token.relocate id) = front := List.map_id front
  obtain ⟨r', reads', upcoming, scope_eq⟩ := reads.elsewhere id (p'.withScope scope)
    before (by rw [same]; exact behind) closing closing' rfl (.inr depth)
  rw [Node.relocate_id] at reads'
  refine ⟨_, expression_eq_ok_iff.mpr ⟨r', reads', scope_eq.symm, rfl⟩, ?_⟩
  obtain ⟨front', before', behind', -⟩ := reads'.onward (starts _)
  rw [upcoming] at behind'
  have all : front' = front := List.append_cancel_right (behind'.symm.trans behind)
  calc r'.cursor.index = p'.cursor.index + front'.length := Cursor.Onward.index_eq before'
    _ = r.cursor.index := by rw [all, index, length]

end Parser

/-! ## In parentheses

A statement whose first and last tokens are no line ends reaches up to the end of the input,
so behind an opening parenthesis it reaches up to the closing one. -/

section

variable {limit : Option Nat} {p q : Parser} {node : Node} {front rest : List Token}
  {last : Token}

theorem Parser.not_atEnd_of_token (upcoming : p.cursor.upcoming = front ++ rest)
    (goOn : ∀ t ∈ front, t.kind ≠ .eof) {token : Token} (mem : token ∈ front)
    (noLine : token.kind ≠ .newline) : p.skipLines.token.kind ≠ .eof := by
  have lines := p.cursor.upcoming_skipLines
  rw [upcoming, List.dropWhile_append] at lines
  rcases left : front.dropWhile fun token => token.kind = .newline with _ | ⟨first, others⟩
  · have all := List.dropWhile_eq_nil_iff.mp left token mem
    exact absurd (of_decide_eq_true all) noLine
  · rw [left, List.isEmpty_cons, if_neg Bool.false_ne_true] at lines
    have here : p.skipLines.token = first := Parser.token_of_upcoming lines
    have inside : first ∈ front.dropWhile fun token => token.kind = .newline := by
      rw [left]
      exact List.mem_cons_self
    rw [here]
    exact goOn first ((List.dropWhile_sublist _).subset inside)

/-- Between tokens that are no line ends a single statement reaches up to the end of the
input. -/
theorem Reads.single_statement (h : Reads limit (.statements .eof) p [node] q)
    (upcoming : p.cursor.upcoming = front ++ last :: rest) (trimmed : Trimmed front)
    (ends : last.kind = .eof) :
    ∃ q', Reads limit (.expression .lowest) p node q' ∧ q'.cursor.upcoming = last :: rest ∧
      q'.scope = q.scope := by
  have lines : p.skipLines = p := by
    refine Parser.skipLines_of_ne ?_
    cases front with
    | nil => rw [Parser.token_of_upcoming upcoming, ends]; decide
    | cons first front =>
        have first_eq : p.token = first := Parser.token_of_upcoming upcoming
        exact trimmed.head _ (congrArg some first_eq.symm)
  cases h with
  | @statement _ _ q₁ _ _ _ _ _ reads _ others =>
      rw [lines] at reads
      cases others with
      | noStatement final =>
          have atEnd : q₁.skipLines.token.kind = .eof := by
            rw [Parser.skipLines_skipLines] at final
            exact final.elim id id
          have starts : (Goal.expression .lowest).Starts p.cursor := trivial
          obtain ⟨passed, -, upcoming', none⟩ := reads.onward starts
          refine ⟨q₁, reads, ?_, rfl⟩
          rw [upcoming] at upcoming'
          rcases List.append_eq_append_iff.mp upcoming' with
            ⟨more, all, behind⟩ | ⟨more, all, behind⟩
          · cases more with
            | nil => exact behind.symm
            | cons token more =>
                obtain ⟨rfl, -⟩ := List.cons.inj behind
                exact absurd ends (none _ (by simp [all]))
          · rcases List.eq_nil_or_concat more with rfl | ⟨others, token, rfl⟩
            · exact behind
            · rw [List.concat_eq_append] at all behind
              have final : token.kind ≠ .newline := trimmed.last token (by simp [all])
              refine absurd atEnd (Parser.not_atEnd_of_token behind ?_ (by simp) final)
              exact fun t mem => trimmed.goOn t (all ▸ List.mem_append_right _ mem)

theorem Reads.only_statement (h : Reads limit (.expression .lowest) p node q)
    (ends : q.token.kind = .eof) :
    ∃ q', Reads limit (.statements .eof) p [node] q' ∧ q'.scope = q.scope := by
  obtain ⟨form, leads⟩ := h.expression_leads
  have goesOn : p.skipLines.token.kind ≠ .eof := TokenKind.ne_eof_of_leading leads
  have lines : q.skipLines = q := Parser.skipLines_of_ne (by rw [ends]; decide)
  refine ⟨q.skipLines.skipLines, ?_, rfl⟩
  refine .statement goesOn goesOn h.expression_skipLines (.inr (.inl ends)) (.noStatement (.inr ?_))
  rwa [lines, lines]

/-- Read without a limit, an expression is also read in parentheses. -/
theorem Reads.parenthesized {move : Position → Position} {p' : Parser} {closing last' : Token}
    {rest' : List Token} (h : Reads none (.expression .lowest) p node q)
    (upcoming : p.cursor.upcoming = front ++ q.cursor.upcoming) (closes : q.token.Closes)
    (upcoming' : p'.advance.cursor.upcoming =
      front.map (Token.relocate move) ++ closing :: last' :: rest')
    (opens : p'.token.kind = .lparen) (paren : closing.kind = .rparen) (ends : last'.kind = .eof)
    (scope : p'.scope = p.scope) :
    ∃ q', Reads none (.expression .lowest) p' (node.relocate move) q' ∧ q'.token = last' ∧
      q'.scope = q.scope := by
  have tail : ∀ t ∈ (closing :: last' :: rest').head?, t.Closes := by
    intro t mem
    obtain rfl := Option.some.inj mem
    exact .inr (.inr (.inl paren))
  obtain ⟨q', inner, behind, scope_eq⟩ :=
    h.elsewhere move p'.opened.advance upcoming upcoming' closes tail scope (.inl rfl)
  obtain ⟨form, leads⟩ := inner.expression_leads
  have noParen : p'.opened.advance.skipLines.token.kind ≠ .rparen := by
    intro isParen
    rw [isParen] at leads
    cases leads
  have closing_eq : q'.token.kind = .rparen := by
    rw [Parser.token_of_upcoming behind, paren]
  have lines : q'.skipLines = q' := Parser.skipLines_of_ne (by rw [closing_eq]; decide)
  have noEnd : q'.token.kind ≠ .eof := by rw [closing_eq]; decide
  have behind' : q'.advance.cursor.upcoming = last' :: rest' :=
    Parser.upcoming_advance noEnd behind
  have last_eq : q'.advance.token = last' := Parser.token_of_upcoming behind'
  have group : Reads none (.leading .group) p'.opened (node.relocate move)
      q'.skipLines.advance :=
    .group opens noParen inner.expression_skipLines (by rwa [lines])
  rw [lines] at group
  have noLine : p'.token.kind ≠ .newline := by rw [opens]; decide
  have lines' : p'.opened.skipLines = p'.opened := Parser.skipLines_of_ne noLine
  rw [← lines'] at group
  refine ⟨q'.advance.closed, .expression rfl ?_ group (.complete fun _ => ?_), last_eq, scope_eq⟩
  · rw [Parser.skipLines_of_ne noLine, opens]
    rfl
  · rw [last_eq, ends]
    rfl

end

/-- A program of one statement is the same statement in parentheses, unless it is nested too
deeply there. -/
theorem Parser.program_parenthesized {tokens ending ending' : List Token}
    {scope symbols symbols' : Names} {node : Node} {start : Position} {q : Parser}
    (move : Position → Position) (opening closing : Token) (trimmed : Trimmed tokens)
    (ends : Ending ending) (ends' : Ending ending') (opens : opening.kind = .lparen)
    (closes : closing.kind = .rparen)
    (accepted : (ofTokens (tokens ++ ending) scope symbols).program
      = (.ok (.block [node] start), q)) :
    let inside := opening :: tokens.map (Token.relocate move) ++ closing :: ending'
    (∃ q', (ofTokens inside scope symbols').program
        = (.ok (.block [node.relocate move] opening.position), q') ∧ q'.scope = q.scope) ∨
      Refused (ofTokens inside scope symbols').program := by
  intro inside
  obtain ⟨nodes, e, reads⟩ := program_eq_ok_iff.mp accepted
  obtain ⟨rfl, -⟩ := Node.block.inj e
  obtain ⟨last, rest, upcoming, eof⟩ := Cursor.exists_upcoming_ofTokens trimmed.goOn ends
  obtain ⟨q₁, statement, behind, scope_eq⟩ :=
    reads.single_statement upcoming trimmed eof
  have goOn' : ∀ t ∈ opening :: tokens.map (Token.relocate move) ++ [closing], t.kind ≠ .eof := by
    simp only [List.forall_mem_append, List.forall_mem_cons, List.forall_mem_map,
      Token.kind_relocate, opens, closes]
    exact ⟨⟨by decide, trimmed.goOn⟩, by decide, nofun⟩
  obtain ⟨last', rest', upcoming', eof'⟩ := Cursor.exists_upcoming_ofTokens goOn' ends'
  have start_eq : (ofTokens inside scope symbols').cursor.upcoming =
      opening :: (tokens.map (Token.relocate move) ++ closing :: last' :: rest') := by
    show (Cursor.ofTokens inside).upcoming = _
    simpa [inside] using upcoming'
  have token_eq : (ofTokens inside scope symbols').token = opening := token_of_upcoming start_eq
  have opens' : (ofTokens inside scope symbols').token.kind = .lparen := by rw [token_eq, opens]
  have noEnd : (ofTokens inside scope symbols').token.kind ≠ .eof := by rw [opens']; decide
  have advanced := upcoming_advance noEnd start_eq
  have closing' : q₁.token.Closes := by
    rw [token_of_upcoming behind]
    exact .inr (.inl eof)
  obtain ⟨q₂, grouped, atEnd, scope_eq'⟩ := statement.unlimited.parenthesized
    (upcoming.trans (by rw [behind])) closing' advanced opens' closes eof' rfl
  obtain ⟨q₃, reads', scope_eq''⟩ := grouped.only_statement (by rw [atEnd, eof'])
  have scopes : q₃.scope = q.scope := scope_eq''.trans (scope_eq'.trans scope_eq)
  rw [← token_eq]
  rcases read_limited (some nestingLimit) (.statements .eof)
    (ofTokens inside scope symbols') with same | refused
  · have within := read_eq_ok_iff.mp (same.symm.trans (read_eq_ok_iff.mpr reads'))
    exact .inl ⟨q₃, program_eq_ok_iff.mpr ⟨_, rfl, within⟩, scopes⟩
  · exact .inr (refused_program refused)

/-- What closes an expression does not matter to it: at the same index of other tokens, which
are the same up to there, it is read in the same way.  So a program of one statement may be put
in parentheses, as far as the limit on nesting permits. -/
theorem expression_closed :
    (∀ {p p' q : Parser} {min : Precedence} {scope after : Names} {node : Node},
      p.expression min scope = (.ok node, after, q) → p.SameUpTo p' q.cursor.index →
      p.cursor.ClosesAt q.cursor.index → p'.cursor.ClosesAt q.cursor.index →
        ∃ q', p'.expression min scope = (.ok node, after, q') ∧
          q'.cursor.index = q.cursor.index) ∧
    ∀ {tokens ending ending' : List Token} {scope symbols symbols' : Names} {node : Node}
      {start : Position} {q : Parser} (move : Position → Position) (opening closing : Token),
      Trimmed tokens → Ending ending → Ending ending' →
      opening.kind = .lparen → closing.kind = .rparen →
      (Parser.ofTokens (tokens ++ ending) scope symbols).program
        = (.ok (.block [node] start), q) →
      let inside := opening :: tokens.map (Token.relocate move) ++ closing :: ending'
      (∃ q', (Parser.ofTokens inside scope symbols').program
          = (.ok (.block [node.relocate move] opening.position), q') ∧ q'.scope = q.scope) ∨
        Refused (Parser.ofTokens inside scope symbols').program :=
  ⟨Parser.expression_of_closes, Parser.program_parenthesized⟩

/-- The sum in `(x + 1)` is also read behind a closing parenthesis and in front of a line end,
and the call `f 1` in parentheses. -/
theorem expression_closed_of_sum :
    (∃ node after q q',
      (Parser.ofTokens (lex "(x + 1)").tokens .empty .empty).advance.expression .lowest
        (.ofList ["x"]) = (.ok node, after, q) ∧
      (Parser.ofTokens (lex ")x + 1\n").tokens .empty .empty).advance.expression .lowest
        (.ofList ["x"]) = (.ok node, after, q') ∧
      q'.cursor.index = q.cursor.index) ∧
    ∃ node start q q',
      (Parser.ofTokens (lex "f 1").tokens .empty .empty).program = (.ok (.block [node] start), q) ∧
      (Parser.ofTokens (lex "(f 1)").tokens .empty .empty).program
        = (.ok (.block [node.relocate fun place => ⟨place.line, place.column + 1⟩] ⟨1, 1⟩), q') ∧
      q'.scope = q.scope := by
  constructor
  · let p : Parser := (Parser.ofTokens (lex "(x + 1)").tokens .empty .empty).advance
    let p' : Parser := (Parser.ofTokens (lex ")x + 1\n").tokens .empty .empty).advance
    obtain ⟨node, ⟨after, q⟩, found⟩ :=
      exists_of_isOk (p.expression .lowest (.ofList ["x"])) (by cbv)
    have stop : q.cursor.index = 4 := by
      have there : (p.expression .lowest (.ofList ["x"])).2.2.cursor.index = 4 := by cbv
      rwa [found] at there
    have tokens : p.cursor.tokens = [.new .lparen "(" ⟨1, 1⟩, .new .identifier "x" ⟨1, 2⟩,
        .new .plus "+" ⟨1, 4⟩, .new .integer "1" ⟨1, 6⟩, .new .rparen ")" ⟨1, 7⟩,
        .endOfInput ⟨1, 8⟩] := by
      cbv
    have tokens' : p'.cursor.tokens = [.new .rparen ")" ⟨1, 1⟩, .new .identifier "x" ⟨1, 2⟩,
        .new .plus "+" ⟨1, 4⟩, .new .integer "1" ⟨1, 6⟩, .new .newline "\n" ⟨1, 7⟩,
        .endOfInput ⟨2, 1⟩] := by
      cbv
    have same : p.SameUpTo p' q.cursor.index := by
      have index : p'.cursor.index = p.cursor.index := by cbv
      have depth (tokens : List Token) : (Parser.ofTokens tokens .empty .empty).advance.depth = 0 :=
        rfl
      refine ⟨index, (depth _).trans (depth _).symm, ?_⟩
      rw [stop, tokens, tokens', show p.cursor.index = 1 by cbv]
      intro k low high
      interval_cases k <;> rfl
    have closes : p.cursor.ClosesAt q.cursor.index := by
      rw [stop, Cursor.ClosesAt, tokens]
      exact ⟨_, rfl, .inr (.inr (.inl rfl))⟩
    have closes' : p'.cursor.ClosesAt q.cursor.index := by
      rw [stop, Cursor.ClosesAt, tokens']
      exact ⟨_, rfl, .inl rfl⟩
    obtain ⟨q', again, index⟩ := expression_closed.1 found same closes closes'
    exact ⟨node, after, q, q', found, again, index⟩
  · have tokens : (lex "f 1").tokens
        = [.new .identifier "f" ⟨1, 1⟩, .new .integer "1" ⟨1, 3⟩] ++ [.endOfInput ⟨1, 4⟩] := by
      cbv
    have tokens' : (lex "(f 1)").tokens = .new .lparen "(" ⟨1, 1⟩ ::
        List.map (Token.relocate fun place => ⟨place.line, place.column + 1⟩)
          [.new .identifier "f" ⟨1, 1⟩, .new .integer "1" ⟨1, 3⟩] ++
        .new .rparen ")" ⟨1, 5⟩ :: [.endOfInput ⟨1, 6⟩] := by
      cbv
    have read : (Parser.ofTokens (lex "f 1").tokens .empty .empty).program.1 = .ok (.block
        [.call (.implicitSelf ⟨1, 1⟩) ⟨"f"⟩ [.literal (.int 1) ⟨1, 3⟩] ⟨1, 1⟩] ⟨1, 1⟩) := by
      cbv
    have room : (Parser.ofTokens (lex "(f 1)").tokens .empty .empty).program.1.isOk = true := by
      cbv
    have accepted := Prod.ext read rfl (y := (_, _))
    rw [tokens] at accepted ⊢
    rw [tokens'] at room ⊢
    have ends : Ending [.endOfInput ⟨1, 4⟩] := .cons rfl
    have ends' : Ending [.endOfInput ⟨1, 6⟩] := .cons rfl
    obtain ⟨q', inside, scope_eq⟩ | ⟨token, refused⟩ :=
      expression_closed.2 (fun place => ⟨place.line, place.column + 1⟩)
        (.new .lparen "(" ⟨1, 1⟩) (.new .rparen ")" ⟨1, 5⟩)
        ⟨by decide, by decide, by decide⟩ ends ends' rfl rfl accepted
    · exact ⟨_, _, _, q', accepted, inside, scope_eq⟩
    · rw [refused] at room
      cases room

end RubyReader
