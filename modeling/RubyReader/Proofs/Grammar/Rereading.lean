/-
# `Rereading` — what is printed is read again

From its printed tokens a tree is read again, wherever they stand.  What is printed is
never continued by a token behind it but by a dot, so the invariant is the one of the
tightest phrases: a leading form, and the loop through all that follows it as long as
it was started below a dot (`Rereads`).  Parentheses open one expression and what
stands in them a second one, so a tree opens at most two for each step of its height.
-/
import RubyReader.Proofs.Grammar.Climbing
import RubyReader.Proofs.Reading.Gluing
import RubyReader.Proofs.Reading.Statements
import RubyReader.Proofs.Tree.Printed

namespace RubyReader

open Node (Alike AllAlike mark printed arguments lines separated heightBelow allAssignedNames
  parameterName?)

variable {limit : Option Nat} {write : Value → Token} {p p' q : Parser} {t : Token}
  {tokens rest : List Token} {scope scope' : Names} {depth : Nat}

/-! ## What may stand behind a printed tree -/

namespace Follows

theorem atSend {level : Level} (h : Follows level t) : Follows .send t :=
  ⟨h.noList, h.noTarget, h.noArgument, h.stops.mono (by cases level <;> decide)⟩

theorem of_closes {level : Level} (h : t.Closes) : Follows level t := by
  refine ⟨?_, h.noAssign, h.noArgument, .of_none h.following?_eq⟩
  rcases h with h | h | h | h | h <;> rw [h] <;> decide

end Follows

theorem Token.precedence_of_operator {token : Token} {name : String}
    (h : token.kind.operator? = some name) :
    .lowest < token.precedence ∧ token.precedence < .dot := by
  unfold Token.precedence
  cases kind : token.kind <;> simp_all [TokenKind.operator?] <;> decide

theorem Follows.of_operator {name : String} (h : t.kind.operator? = some name) :
    Follows .send t := by
  have loose := (Token.precedence_of_operator h).2
  refine ⟨fun e => ?_, fun e => ?_, ?_, fun lt => ?_⟩
  · rw [e] at h
    cases h
  · rw [e] at h
    cases h
  · unfold Token.beginsBareArgument
    cases kind : t.kind <;> rw [kind] at h <;> first | rfl | cases h
  · exact absurd (Nat.lt_trans lt loose) (Nat.lt_irrefl _)

/-! ## What is proved of a tree -/

/-- From its printed tokens a tree is read again, up to places: it begins with a leading
form, and the loop runs through the rest if it was started below a dot. -/
def Rereads (limit : Option Nat) (write : Value → Token) (scope : Names) (node : Node) : Prop :=
  ∀ (p : Parser) (t : Token) (rest : List Token) (depth : Nat),
    p.Stands (printed write node ++ t :: rest) scope depth → Follows .send t →
    Room limit (depth + 2 * node.height + 1) →
    ∃ left p' again q, Begins limit false p left p' ∧ Continues limit .dot left p' again q ∧
      again.Alike node ∧ q.Stands (t :: rest) (scope.insertAll node.assignedNames) depth

/-- Trees are read again one after the other, each in the scope that those before leave. -/
def AllReread (limit : Option Nat) (write : Value → Token) : Names → List Node → Prop
  | _, [] => True
  | scope, node :: rest =>
    Rereads limit write scope node ∧ AllReread limit write (scope.insertAll node.assignedNames) rest

theorem Rereads.expression {node : Node} (h : Rereads limit write scope node) {min : Precedence}
    (stands : p.Stands (printed write node ++ t :: rest) scope depth) (follows : Follows .send t)
    (lt : min < .dot) (stops : Stops min t) (room : Room limit (depth + 2 * node.height + 2)) :
    (∃ form, p.token.kind.leading? = some form) ∧ ∃ again q,
      Reads limit (.expression min) p again q ∧ again.Alike node ∧
        q.Stands (t :: rest) (scope.insertAll node.assignedNames) depth := by
  obtain ⟨left, p', again, q, begins, continues, alike, behind⟩ :=
    h _ _ _ _ stands.opened follows (room.mono (by omega))
  obtain ⟨leads, reads⟩ := reads_expression stands.depth_eq (room.mono (by omega)) begins continues
    lt (by rwa [behind.token_eq])
  exact ⟨leads, again, q.closed, reads, alike, behind.closed⟩

theorem Rereads.whole {node : Node} (h : Rereads limit write scope node)
    (stands : p.Stands (printed write node ++ t :: rest) scope depth)
    (follows : Follows .expression t) (room : Room limit (depth + 2 * (node.height + 1))) :
    (∃ form, p.token.kind.leading? = some form) ∧ ∃ again q,
      Reads limit (.expression .lowest) p again q ∧ again.Alike node ∧
        q.Stands (t :: rest) (scope.insertAll node.assignedNames) depth :=
  h.expression stands follows.atSend (by decide) follows.stops (room.mono (by omega))

/-- A tree whose tokens are a leading form is read again if that is. -/
theorem rereads_of_begins {node : Node}
    (h : ∀ {p : Parser} {t : Token} {rest : List Token} {depth : Nat},
      p.Stands (printed write node ++ t :: rest) scope depth → Follows .send t →
      Room limit (depth + 2 * node.height + 1) →
      ∃ again q, Begins limit false p again q ∧ again.Alike node ∧
        q.Stands (t :: rest) (scope.insertAll node.assignedNames) depth) :
    Rereads limit write scope node := by
  intro p t rest depth stands follows room
  obtain ⟨again, q, begins, alike, behind⟩ := h stands follows room
  exact ⟨_, q, again, q, begins, .refl, alike, behind⟩

/-- A tree is read again from between parentheses. -/
theorem rereads_of_group {node : Node} {inner : List Token}
    (tokens : printed write node = mark .lparen "(" :: (inner ++ [mark .rparen ")"]))
    (h : ∀ {p : Parser} {rest : List Token} {depth : Nat},
      p.Stands (inner ++ mark .rparen ")" :: rest) scope depth →
      Room limit (depth + 2 * node.height) →
      ∃ left p' again q, Begins limit false p left p' ∧
        Continues limit .ternary left p' again q ∧ again.Alike node ∧
          q.Stands (mark .rparen ")" :: rest) (scope.insertAll node.assignedNames) depth) :
    Rereads limit write scope node := by
  refine rereads_of_begins fun {p t rest depth} stands follows room => ?_
  have all : printed write node ++ t :: rest
      = mark .lparen "(" :: (inner ++ mark .rparen ")" :: t :: rest) := by
    rw [tokens, List.cons_append, List.append_assoc]
    rfl
  rw [all] at stands
  let opening : Terminal .lparen := ⟨mark .lparen "(", rfl⟩
  let closing : Terminal .rparen := ⟨mark .rparen ")", rfl⟩
  have inside := stands.advance (by decide)
  obtain ⟨left, p', again, q, begins, continues, alike, behind⟩ :=
    h inside.opened (room.mono (by omega))
  have below : Precedence.lowest < .ternary := by decide
  obtain ⟨leads, reads⟩ := reads_expression inside.depth_eq (room.mono (by omega)) begins
    continues below (.of_none (by rw [behind.token_eq]; rfl))
  exact ⟨again, q.closed.advance, begins_group opening closing stands leads reads behind.closed,
    alike, behind.closed.advance (by decide)⟩

/-! ## Leaves -/

theorem rereads_of_token {node : Node} {token : Token} {form : LeadingForm}
    (tokens : printed write node = [token]) (none : node.assignedNames = [])
    (leads : token.kind.leading? = some form)
    (reads : ∀ p : Parser, p.token = token → p.scope = scope →
      ∃ again q, Reads limit (.leading form) p again q ∧ again.Alike node ∧
        q.cursor = p.cursor.advance ∧ q.scope = p.scope ∧ q.depth = p.depth) :
    Rereads limit write scope node := by
  refine rereads_of_begins fun {p t rest depth} stands _ _ => ?_
  rw [tokens] at stands
  have noEof : token.kind ≠ .eof := by
    intro eof
    rw [eof] at leads
    cases leads
  have next := stands.advance noEof
  obtain ⟨again, q, leading, alike, cursor, scope_eq, depth_eq⟩ :=
    reads p stands.token_eq stands.scope_eq
  refine ⟨again, q, ⟨form, ?_, leading⟩, alike, ?_, ?_, ?_⟩
  · rw [stands.token_eq, leads]
  · rw [cursor]
    exact next.upcoming
  · rw [scope_eq, stands.scope_eq, none, Names.insertAll_nil]
  · rw [depth_eq, stands.depth_eq]

variable {position : Position}

theorem rereads_literal (denotes : Denotes write) {value : Value} (isNumber : value.IsNumber) :
    Rereads limit write scope (.literal value position) := by
  have written := denotes value isNumber
  have leads := Token.leading?_of_numeral written
  have tokens : printed write (.literal value position) = [write value] := by rw [printed]
  refine rereads_of_token tokens (by rfl) leads fun p token _ => ?_
  rw [← token] at written
  exact ⟨_, _, .number written, rfl, rfl, rfl, rfl⟩

theorem rereads_string {text : String} :
    Rereads limit write scope (.string (.str text) position) := by
  refine rereads_of_token rfl rfl rfl fun p token _ => ?_
  have reads : Reads limit (.leading .string) p _ _ := .string (by rw [token]; rfl)
  rw [token] at reads
  exact ⟨_, _, reads, rfl, rfl, rfl, rfl⟩

theorem rereads_symbol {symbol : Symbol} :
    Rereads limit write scope (.symbol (.sym symbol) position) := by
  refine rereads_of_token rfl rfl rfl fun p token _ => ?_
  have reads : Reads limit (.leading .symbol) p _ _ := .symbol (by rw [token]; rfl)
  rw [token] at reads
  exact ⟨_, _, reads, rfl, rfl, rfl, rfl⟩

theorem rereads_trueLiteral : Rereads limit write scope (.trueLiteral position) := by
  refine rereads_of_token rfl rfl rfl fun p token _ => ?_
  exact ⟨_, _, .trueLiteral (by rw [token]; rfl), rfl, rfl, rfl, rfl⟩

theorem rereads_falseLiteral : Rereads limit write scope (.falseLiteral position) := by
  refine rereads_of_token rfl rfl rfl fun p token _ => ?_
  exact ⟨_, _, .falseLiteral (by rw [token]; rfl), rfl, rfl, rfl, rfl⟩

theorem rereads_nilLiteral : Rereads limit write scope (.nilLiteral position) := by
  refine rereads_of_token rfl rfl rfl fun p token _ => ?_
  exact ⟨_, _, .nilLiteral (by rw [token]; rfl), rfl, rfl, rfl, rfl⟩

theorem rereads_identifier {name : Identifier} (isName : name.token.kind = .identifier)
    (isLocal : name.isLocal = true) (known : name.name ∈ scope) :
    Rereads limit write scope (.identifier name position) := by
  refine rereads_of_token rfl rfl (by rw [isName]; rfl) fun p token scope_eq => ?_
  have reads : Reads limit (.leading .name) p _ _ :=
    .name (by rw [token, isName]) (.inl (by rw [token, scope_eq]; exact known))
  have resolved : scope.contains name.token.literal = name.isLocal := by
    rw [isLocal, Names.contains_iff]
    exact known
  rw [token, scope_eq, resolved] at reads
  exact ⟨_, _, reads, rfl, rfl, rfl, rfl⟩

/-! ## Arguments

Trees between commas are read again one after the other, behind what can take them as its
arguments. -/

theorem AllReread.reads_arguments {node : Node} {nodes : List Node}
    (h : AllReread limit write scope (node :: nodes))
    (stands : p.Stands (arguments write (node :: nodes) ++ rest) scope depth)
    (room : Room limit (depth + 2 * heightBelow (node :: nodes))) :
    (∃ form, p.token.kind.leading? = some form) ∧ ∃ again q,
      Reads limit .arguments p again q ∧ AllAlike again (node :: nodes) ∧
        q.Stands rest (scope.insertAll (allAssignedNames (node :: nodes))) depth := by
  induction nodes generalizing node p scope with
  | nil =>
      rw [Node.arguments, List.append_assoc] at stands
      rw [heightBelow, heightBelow] at room
      obtain ⟨leads, again, q, reads, alike, behind⟩ :=
        h.1.whole stands (.of_closes (.inr (.inr (.inl rfl)))) (room.mono (by omega))
      have same : q.skipLines = q := behind.lines (by decide)
      have last : Reads limit .arguments p [again] q.skipLines.advance :=
        .lastArgument reads (by rw [same, behind.token_eq]; rfl)
      rw [same] at last
      refine ⟨leads, _, _, last, .cons alike .nil, ?_⟩
      rw [allAssignedNames, allAssignedNames, List.append_nil]
      exact behind.advance (by decide)
  | cons next nodes ih =>
      rw [Node.arguments, List.append_assoc] at stands
      rw [heightBelow] at room
      let comma : Terminal .comma := ⟨mark .comma ",", rfl⟩
      obtain ⟨leads, first, p', reads, alike, between⟩ :=
        h.1.whole stands (.separator comma (.inr (.inl rfl))) (room.mono (by omega))
      have same : p'.skipLines = p' := between.lines (by decide)
      obtain ⟨_, others, q, readsRest, alikeRest, behind⟩ :=
        ih h.2 (between.advance (by decide)) (room.mono (by omega))
      refine ⟨leads, _, q, .argument reads ?_ (by rwa [same]), .cons alike alikeRest, ?_⟩
      · rw [same, between.token_eq]
        rfl
      · rw [allAssignedNames, Names.insertAll_append]
        exact behind

theorem AllReread.reads_call {left receiver : Node} {message : Symbol} {position : Position}
    {nodes : List Node} (h : AllReread limit write scope nodes)
    (callable : Callable left receiver message position) (after : p.afterParen = false)
    (stands : p.Stands (mark .lparen "(" :: (arguments write nodes ++ rest)) scope depth)
    (room : Room limit (depth + 2 * heightBelow nodes)) :
    ∃ again q, Reads limit (.following .call left) p (.call receiver message again position) q ∧
      AllAlike again nodes ∧ q.Stands rest (scope.insertAll (allAssignedNames nodes)) depth := by
  let opening : Terminal .lparen := ⟨mark .lparen "(", rfl⟩
  let closing : Terminal .rparen := ⟨mark .rparen ")", rfl⟩
  cases nodes with
  | nil =>
      obtain ⟨q, reads, behind⟩ := callable.reads_empty opening closing after stands
      exact ⟨[], q, reads, .nil, behind⟩
  | cons node nodes =>
      exact callable.reads_list opening after stands fun inside => h.reads_arguments inside room

/-! ## Calls -/

section

variable {receiver : Node} {message : Symbol} {args : List Node}

theorem rereads_selfCall {place : Position} (h : AllReread limit write scope args) :
    Rereads limit write scope (.call (.implicitSelf place) message args position) := by
  intro p t rest depth stands _ room
  let callee : Terminal .identifier := ⟨mark .identifier message.name, rfl⟩
  let opening : Terminal .lparen := ⟨mark .lparen "(", rfl⟩
  rw [printed] at stands
  rw [Node.height] at room
  obtain ⟨left, p', begins, callable, there, after⟩ := Phrase.begins_callee callee opening stands
  obtain ⟨again, q, reads, alike, behind⟩ :=
    h.reads_call callable after there (room.mono (by omega))
  have paren : p'.token.kind = .lparen := by rw [there.token_eq]; rfl
  exact ⟨left, p', _, q, begins, Continues.refl.call paren reads, .call rfl alike, behind⟩

theorem rereads_send (explicit : receiver.type ≠ .implicitSelf)
    (named : TokenKind.ofOperator? message.name = none) (h : Rereads limit write scope receiver)
    (h' : AllReread limit write (scope.insertAll receiver.assignedNames) args) :
    Rereads limit write scope (.call receiver message args position) := by
  intro p t rest depth stands _ room
  let dot : Terminal .dot := ⟨mark .dot ".", rfl⟩
  let name : Terminal .identifier := ⟨mark .identifier message.name, rfl⟩
  rw [Node.printed_send explicit named, List.append_assoc] at stands
  rw [Node.height] at room
  obtain ⟨left, p', again, q, begins, continues, alike, there⟩ :=
    h _ _ _ _ stands (.dot dot) (room.mono (by omega))
  obtain ⟨q', sent, behind, after⟩ := continues.send dot name there rfl
  obtain ⟨others, r, reads, alike', finish⟩ :=
    h'.reads_call (.call _ _ _) after behind (room.mono (by omega))
  refine ⟨left, p', _, r, begins, sent.call (by rw [behind.token_eq]; rfl) reads,
    .call alike alike', ?_⟩
  rw [Node.assignedNames, Names.insertAll_append]
  exact finish

theorem rereads_operation {kind : TokenKind} {right : Node}
    (explicit : receiver.type ≠ .implicitSelf)
    (operator : TokenKind.ofOperator? message.name = some kind)
    (h : Rereads limit write scope receiver)
    (h' : Rereads limit write (scope.insertAll receiver.assignedNames) right) :
    Rereads limit write scope (.call receiver message [right] position) := by
  have name := TokenKind.operator?_of_ofOperator? operator
  have token_name : (mark kind message.name).kind.operator? = some message.name := name
  obtain ⟨tighter, looser⟩ := Token.precedence_of_operator token_name
  refine rereads_of_group (Node.printed_operation explicit operator) ?_
  intro p rest depth stands room
  rw [Node.height, heightBelow, heightBelow] at room
  rw [List.append_assoc] at stands
  obtain ⟨left, p', again, q, begins, continues, alike, there⟩ :=
    h _ _ _ _ stands (.of_operator token_name) (room.mono (by omega))
  have behind := (there.advance (TokenKind.ne_eof_of_operator name)).intern message.name
  obtain ⟨_, operand, r, reads, alike', finish⟩ := h'.expression behind
    (.of_closes (.inr (.inr (.inl rfl)))) looser (.of_none rfl) (room.mono (by omega))
  have sends : Reads limit (.following .operator again) q _ r :=
    .operator (by rw [there.token_eq, token_name]) (by rw [there.token_eq]; exact reads)
  have looped : Continues limit .ternary left p' again q := continues.mono (by decide)
  have turned := looped.turn (by rw [there.token_eq]; exact tighter)
    (by rw [there.token_eq]; exact TokenKind.following?_of_operator token_name) sends
  refine ⟨left, p', _, r, begins, turned, .call alike (.cons alike' .nil), ?_⟩
  rw [Node.assignedNames, Names.insertAll_append, allAssignedNames, allAssignedNames,
    List.append_nil]
  exact finish

end

/-! ## Assignments and conditionals -/

theorem rereads_assignment {target : Identifier} {value : Node}
    (isName : target.token.kind = .identifier)
    (marked : target.isLocal = true ↔ target.name ∈ scope)
    (h : Rereads limit write (scope.insert target.name) value) :
    Rereads limit write scope (.assignment target value position) := by
  refine rereads_of_group Node.printed_assignment ?_
  intro p rest depth stands room
  rw [Node.height] at room
  have there := stands.advance (by rw [isName]; decide)
  have behind := (there.advance (by decide)).declare target.name
  have isTarget : p.advance.token.kind = .assign := by rw [there.token_eq]; rfl
  have begins : Reads limit (.leading .name) p _ _ :=
    .name (by rw [stands.token_eq, isName]) (.inr isTarget)
  have resolved : scope.contains target.token.literal = target.isLocal := by
    rw [Bool.eq_iff_iff, Names.contains_iff]
    exact marked.symm
  rw [stands.token_eq, stands.scope_eq, resolved] at begins
  obtain ⟨_, again, q, reads, alike, finish⟩ :=
    h.whole behind (.of_closes (.inr (.inr (.inl rfl)))) (room.mono (by omega))
  have assigns : Reads limit (.following .assignment (.identifier target target.token.position))
      p.advance _ q := .assignment isTarget reads
  have turned : Continues limit .ternary (.identifier target target.token.position) p.advance _ q :=
    Continues.refl.turn (by simp [Token.precedence, isTarget]; decide) (by rw [isTarget]; rfl)
      assigns
  refine ⟨_, p.advance, _, q, ⟨.name, ?_, begins⟩, turned, .assignment target alike, finish⟩
  rw [stands.token_eq, isName]
  rfl

theorem rereads_conditional {condition ifTrue ifFalse : Node}
    (h : Rereads limit write scope condition)
    (h' : Rereads limit write (scope.insertAll condition.assignedNames) ifTrue)
    (h'' : Rereads limit write
      ((scope.insertAll condition.assignedNames).insertAll ifTrue.assignedNames) ifFalse) :
    Rereads limit write scope (.conditional condition ifTrue ifFalse position) := by
  refine rereads_of_group Node.printed_conditional ?_
  intro p rest depth stands room
  rw [Node.height] at room
  let question : Terminal .question := ⟨mark .question "?", rfl⟩
  rw [List.append_assoc, List.cons_append, List.append_assoc] at stands
  obtain ⟨left, p', again, p₁, begins, continues, alike, there⟩ :=
    h _ _ _ _ stands (Follows.question question).atSend (room.mono (by omega))
  obtain ⟨_, again', p₂, readsTrue, alike', between⟩ := h'.whole (there.advance (by decide))
    (.of_closes (.inr (.inr (.inr (.inr rfl))))) (room.mono (by omega))
  have same : p₂.skipLines = p₂ := between.lines (by decide)
  obtain ⟨_, again'', q, readsFalse, alike'', finish⟩ := h''.whole (between.advance (by decide))
    (.of_closes (.inr (.inr (.inl rfl)))) (room.mono (by omega))
  have isQuestion : p₁.token.kind = .question := by rw [there.token_eq]; rfl
  have branches : Reads limit (.following .ternary again) p₁ _ q :=
    .ternary isQuestion readsTrue (by rw [same, between.token_eq]; rfl) (by rwa [same])
  have looped : Continues limit .ternary left p' again p₁ := continues.mono (by decide)
  have turned := looped.turn (by simp [Token.precedence, isQuestion]) (by rw [isQuestion]; rfl)
    branches
  refine ⟨left, p', _, q, begins, turned, .conditional alike alike' alike'', ?_⟩
  rw [Node.assignedNames, Names.insertAll_append, Names.insertAll_append]
  exact finish

/-! ## Statements

Line ends stand behind each statement of a method, and between those of a program.  Either
list is read again from the front. -/

theorem Rereads.statement {node : Node} {nodes : List Node} {terminator : TokenKind}
    (h : Rereads limit write scope node)
    (stands : p.Stands (printed write node ++ t :: rest) scope depth)
    (room : Room limit (depth + 2 * (node.height + 1))) (closes : t.Closes)
    (ends : t.kind.EndsStatement) (noExpression : terminator.leading? = none)
    {motive : Parser → Prop}
    (below : ∀ {p : Parser}, p.Stands (t :: rest) (scope.insertAll node.assignedNames) depth →
      ∃ again q, Reads limit (.statements terminator) p again q ∧ AllAlike again nodes ∧
        motive q) :
    ∃ again q, Reads limit (.statements terminator) p again q ∧ AllAlike again (node :: nodes) ∧
      motive q := by
  obtain ⟨⟨form, leads⟩, again, q, reads, alike, behind⟩ :=
    h.whole stands (.of_closes closes) room
  have same : p.skipLines = p := skipLines_of_leads leads
  obtain ⟨others, r, readsRest, alike', finish⟩ := below behind
  refine ⟨_, r, .statement ?_ ?_ (by rwa [same]) ?_ ?_, .cons alike alike', finish⟩
  · intro terminates
    rw [same] at terminates
    rw [terminates, noExpression] at leads
    cases leads
  · intro eof
    rw [same] at eof
    rw [eof] at leads
    cases leads
  · rwa [behind.token_eq]
  · exact readsRest.statements_of_skipLines (Parser.skipLines_skipLines q)

theorem Rereads.line {node : Node} {nodes : List Node} {terminator : TokenKind}
    (h : Rereads limit write scope node)
    (stands : p.Stands (printed write node ++ mark .newline "\n" :: rest) scope depth)
    (room : Room limit (depth + 2 * (node.height + 1))) (noExpression : terminator.leading? = none)
    {motive : Parser → Prop}
    (below : ∀ {p : Parser}, p.Stands rest (scope.insertAll node.assignedNames) depth →
      ∃ again q, Reads limit (.statements terminator) p again q ∧ AllAlike again nodes ∧
        motive q) :
    ∃ again q, Reads limit (.statements terminator) p again q ∧ AllAlike again (node :: nodes) ∧
      motive q := by
  refine h.statement stands room (.inl rfl) (.inl rfl) noExpression fun {p} there => ?_
  obtain ⟨again, q, reads, alike, behind⟩ := below (there.advance (by decide))
  refine ⟨again, q, reads.statements_of_skipLines ?_, alike, behind⟩
  exact Parser.skipLines_of_newline (by rw [there.token_eq]; rfl)

theorem AllReread.reads_lines {nodes : List Node} (h : AllReread limit write scope nodes)
    (stands : p.Stands (lines write nodes ++ mark .kwEnd "end" :: rest) scope depth)
    (room : Room limit (depth + 2 * heightBelow nodes)) :
    ∃ again q, Reads limit (.statements .kwEnd) p again q ∧ AllAlike again nodes ∧
      q.Stands (mark .kwEnd "end" :: rest) (scope.insertAll (allAssignedNames nodes)) depth := by
  induction nodes generalizing p scope with
  | nil =>
      have same : p.skipLines = p := stands.lines (by decide)
      have reads : Reads limit (.statements .kwEnd) p [] p.skipLines :=
        .noStatement (.inl (by rw [same, stands.token_eq]; rfl))
      rw [same] at reads
      exact ⟨[], p, reads, .nil, stands⟩
  | cons node nodes ih =>
      rw [Node.lines, List.append_assoc] at stands
      rw [heightBelow] at room
      rw [allAssignedNames, Names.insertAll_append]
      exact h.1.line stands (room.mono (by omega)) rfl fun there =>
        ih h.2 there (room.mono (by omega))

theorem AllReread.reads_separated {nodes : List Node} {last : Token} (ends : last.kind = .eof)
    (h : AllReread limit write scope nodes)
    (stands : p.Stands (separated write nodes ++ [last]) scope depth)
    (room : Room limit (depth + 2 * heightBelow nodes)) :
    ∃ again q, Reads limit (.statements .eof) p again q ∧ AllAlike again nodes ∧
      q.scope = scope.insertAll (allAssignedNames nodes) := by
  induction nodes generalizing p scope with
  | nil =>
      have same : p.skipLines = p := stands.lines (by simp [ends])
      have reads : Reads limit (.statements .eof) p [] p.skipLines :=
        .noStatement (.inr (by rw [same, stands.token_eq, ends]))
      exact ⟨[], _, reads, .nil, stands.scope_eq⟩
  | cons node nodes ih =>
      rw [heightBelow] at room
      rw [allAssignedNames, Names.insertAll_append]
      cases nodes with
      | nil =>
          rw [separated, List.append_assoc] at stands
          exact h.1.statement stands (room.mono (by omega)) (.inr (.inl ends)) (.inr (.inl ends))
            rfl fun there => ih h.2 there (room.mono (by omega))
      | cons next nodes =>
          rw [separated, List.append_assoc] at stands
          exact h.1.line stands (room.mono (by omega)) rfl fun there =>
            ih h.2 there (room.mono (by omega))

/-! ## Methods -/

/-- A parameter is read again if its name is new. -/
theorem reads_parameter {param : Node} {name : String} (isParameter : param.IsParameter)
    (named : param.parameterName? = some name) (fresh : name ∉ scope)
    (stands : p.Stands (printed write param ++ tokens) scope depth) :
    p.token.kind = .identifier ∧ ∃ again q, Reads limit .parameter p again q ∧
      again.Alike param ∧ q.Stands tokens (scope.insert name) depth := by
  cases param with
  | identifier identifier position =>
      obtain ⟨isName, isLocal⟩ := isParameter
      obtain rfl := Option.some.inj named
      have kind : p.token.kind = .identifier := by rw [stands.token_eq, isName]
      have isNew : p.token.literal ∉ p.scope := by
        rw [stands.token_eq, stands.scope_eq]
        exact fresh
      have reads : Reads limit .parameter p _ _ := .parameter kind isNew
      have behind := (stands.declare identifier.name).advance (by rw [isName]; decide)
      rw [stands.token_eq, ← isLocal] at reads
      exact ⟨kind, _, _, reads, rfl, behind⟩
  | _ => cases isParameter

theorem reads_parameters {param : Node} {params : List Node}
    (areParameters : ∀ other ∈ param :: params, other.IsParameter)
    (distinct : ((param :: params).filterMap parameterName?).Nodup)
    (fresh : ∀ name ∈ (param :: params).filterMap parameterName?, name ∉ scope)
    (stands : p.Stands (arguments write (param :: params) ++ rest) scope depth) :
    p.token.kind = .identifier ∧ ∃ again q, Reads limit .parameters p again q ∧
      AllAlike again (param :: params) ∧
      q.Stands rest (scope.insertAll ((param :: params).filterMap parameterName?)) depth := by
  induction params generalizing param p scope with
  | nil =>
      have isParameter := areParameters param List.mem_cons_self
      obtain ⟨name, named⟩ := isParameter.exists_name
      rw [List.filterMap_cons_some named] at fresh ⊢
      rw [Node.arguments, List.append_assoc] at stands
      obtain ⟨kind, again, q, reads, alike, behind⟩ :=
        reads_parameter isParameter named (fresh name List.mem_cons_self) stands
      have same : q.skipLines = q := behind.lines (by decide)
      have last : Reads limit .parameters p [again] q.skipLines.advance :=
        .lastParameter reads (by rw [same, behind.token_eq]; rfl)
      rw [same] at last
      exact ⟨kind, _, _, last, .cons alike .nil, behind.advance (by decide)⟩
  | cons next params ih =>
      have isParameter := areParameters param List.mem_cons_self
      obtain ⟨name, named⟩ := isParameter.exists_name
      rw [List.filterMap_cons_some named] at fresh distinct ⊢
      rw [Node.arguments, List.append_assoc] at stands
      obtain ⟨kind, first, p', reads, alike, between⟩ :=
        reads_parameter isParameter named (fresh name List.mem_cons_self) stands
      have same : p'.skipLines = p' := between.lines (by decide)
      obtain ⟨absent, distinct'⟩ := List.nodup_cons.mp distinct
      have inside := between.advance (by decide)
      obtain ⟨kind', others, q, readsRest, alikeRest, behind⟩ := ih
        (fun other mem => areParameters other (List.mem_cons_of_mem _ mem)) distinct'
        (fun other mem known => (Names.mem_insert.mp known).elim
          (fresh other (List.mem_cons_of_mem _ mem)) fun (e : other = name) => absent (e ▸ mem))
        inside
      have noLine : p'.advance.skipLines = p'.advance :=
        Parser.skipLines_of_ne (by rw [kind']; decide)
      refine ⟨kind, _, q, .furtherParameter reads ?_ ?_, .cons alike alikeRest, behind⟩
      · rw [same, between.token_eq]
        rfl
      · rwa [same, noLine]

variable {name : Identifier} {params body : List Node}

/-- A method is read again, from behind its name. -/
theorem reads_method (areParameters : ∀ param ∈ params, param.IsParameter)
    (distinct : (params.filterMap parameterName?).Nodup)
    (h : AllReread limit write (.ofList (params.filterMap parameterName?)) body)
    (stands : p.Stands (mark .lparen "(" :: (arguments write params ++ mark .newline "\n" ::
      (lines write body ++ mark .kwEnd "end" :: rest))) scope depth)
    (room : Room limit (depth + 2 * heightBelow body)) :
    ∃ params' body' q, Reads limit .method p (params', body') q ∧ AllAlike params' params ∧
      AllAlike body' body ∧ q.Stands rest scope depth := by
  have paren : p.token.kind = .lparen := by rw [stands.token_eq]; rfl
  have inside := (stands.withScope .empty).advance (by decide)
  -- the body is read in the scope of the parameters, which is gone behind it
  have bodies {p₁ : Parser} (there : p₁.Stands (mark .newline "\n" ::
      (lines write body ++ mark .kwEnd "end" :: rest)) (.ofList (params.filterMap parameterName?))
      depth) : p₁.token.kind.EndsStatement ∧ ∃ body' q,
        Reads limit (.statements .kwEnd) p₁.skipLines body' q ∧ AllAlike body' body ∧
          q.token.kind = .kwEnd ∧ (q.advance.withScope p.scope).Stands rest scope depth := by
    have newline : p₁.token.kind = .newline := by rw [there.token_eq]; rfl
    obtain ⟨body', q, reads, alike, behind⟩ := h.reads_lines (there.advance (by decide)) room
    refine ⟨.inl newline, body', q, reads.statements_of_skipLines ?_, alike, ?_, ?_⟩
    · rw [Parser.skipLines_skipLines, Parser.skipLines_of_newline newline]
    · rw [behind.token_eq]
      rfl
    · rw [stands.scope_eq]
      exact (behind.advance (by decide)).withScope scope
  cases params with
  | nil =>
      have same : (p.withScope .empty).advance.skipLines = (p.withScope .empty).advance :=
        inside.lines (by decide)
      obtain ⟨ends, body', q, reads, alike, kwEnd, behind⟩ := bodies (inside.advance (by decide))
      rw [← same] at ends reads
      have closes : (p.withScope .empty).advance.skipLines.token.kind = .rparen := by
        rw [same, inside.token_eq]
        rfl
      exact ⟨[], body', _, .methodNone paren closes ends reads kwEnd, .nil, alike, behind⟩
  | cons param params =>
      obtain ⟨kind, params', p₁, readsParams, alikeParams, there⟩ :=
        reads_parameters areParameters distinct (fun _ _ => List.not_mem_nil) inside
      have same : (p.withScope .empty).advance.skipLines = (p.withScope .empty).advance :=
        Parser.skipLines_of_ne (by rw [kind]; decide)
      obtain ⟨ends, body', q, reads, alike, kwEnd, behind⟩ := bodies there
      have more : (p.withScope .empty).advance.skipLines.token.kind ≠ .rparen := by
        rw [same, kind]
        decide
      rw [← same] at readsParams
      exact ⟨params', body', _, .methodList paren more readsParams ends reads kwEnd, alikeParams,
        alike, behind⟩

theorem rereads_definition (isName : name.token.kind = .identifier) (noLocal : name.isLocal = false)
    (areParameters : ∀ param ∈ params, param.IsParameter)
    (distinct : (params.filterMap parameterName?).Nodup)
    (h : AllReread limit write (.ofList (params.filterMap parameterName?)) body) :
    Rereads limit write scope (.definition name params body position) := by
  refine rereads_of_group Node.printed_definition ?_
  intro p rest depth stands room
  rw [Node.height] at room
  have all : p.Stands (mark .kwDef "def" :: name.token :: mark .lparen "(" ::
      (arguments write params ++ mark .newline "\n" :: (lines write body ++
        mark .kwEnd "end" :: mark .rparen ")" :: rest))) scope depth := by
    simpa using stands
  have named := all.advance (by decide)
  obtain ⟨params', body', q, reads, alike, alike', behind⟩ := reads_method areParameters distinct h
    (named.advance (by rw [isName]; decide)) (room.mono (by omega))
  have begins : Reads limit (.leading .definition) p _ q :=
    .definition (by rw [all.token_eq]; rfl) (by rw [named.token_eq, isName]) reads
  rw [named.token_eq, ← noLocal] at begins
  refine ⟨_, q, _, q, ⟨.definition, by rw [all.token_eq]; rfl, begins⟩, .refl,
    .definition name alike alike', behind⟩

/-! ## Every tree -/

theorem rereads_call {receiver : Node} {message : Symbol} {args : List Node}
    (wellFormed : Node.WellFormed (.call receiver message args position))
    (h : receiver.WellFormed → Rereads limit write scope receiver)
    (h' : AllReread limit write (scope.insertAll receiver.assignedNames) args) :
    Rereads limit write scope (.call receiver message args position) := by
  obtain ⟨self | expression, -, messages⟩ := wellFormed
  · obtain ⟨place, rfl⟩ := Node.exists_implicitSelf self
    exact rereads_selfCall h'
  · have explicit := expression.explicit
    cases operator : TokenKind.ofOperator? message.name with
    | none => exact rereads_send explicit operator (h expression) h'
    | some kind =>
        rw [operator] at messages
        obtain ⟨right, rfl⟩ := List.length_eq_one_iff.mp messages.2
        exact rereads_operation explicit operator (h expression) h'.1

mutual

/-- A tree that stands for an expression is read again from its tokens, in the scope that
makes of its names what they are. -/
theorem rereads (denotes : Denotes write) : (node : Node) → (scope : Names) → node.WellFormed →
    node.Scoped scope → Rereads limit write scope node
  | .assignment _ value _, _, ⟨isName, wellFormed⟩, ⟨marked, inScope⟩ =>
      rereads_assignment isName marked (rereads denotes value _ wellFormed inScope)
  | .call receiver _ args _, _, wellFormed, ⟨inScope, inScope'⟩ =>
      rereads_call wellFormed (fun expression => rereads denotes receiver _ expression inScope)
        (allReread denotes args _ wellFormed.2.1 inScope')
  | .definition _ _ body _, _, ⟨isName, areParameters, distinct, wellFormed⟩,
      ⟨noLocal, inScope⟩ =>
      rereads_definition isName noLocal areParameters distinct
        (allReread denotes body _ wellFormed inScope)
  | .conditional condition ifTrue ifFalse _, _, ⟨h, h', h''⟩, ⟨s, s', s''⟩ =>
      rereads_conditional (rereads denotes condition _ h s) (rereads denotes ifTrue _ h' s')
        (rereads denotes ifFalse _ h'' s'')
  | .identifier _ _, _, isName, ⟨isLocal, known⟩ => rereads_identifier isName isLocal known
  | .literal _ _, _, isNumber, _ => rereads_literal denotes isNumber
  | .string _ _, _, ⟨_, e⟩, _ => e ▸ rereads_string
  | .symbol _ _, _, ⟨_, e⟩, _ => e ▸ rereads_symbol
  | .falseLiteral _, _, _, _ => rereads_falseLiteral
  | .nilLiteral _, _, _, _ => rereads_nilLiteral
  | .trueLiteral _, _, _, _ => rereads_trueLiteral

theorem allReread (denotes : Denotes write) : (nodes : List Node) → (scope : Names) →
    Node.AllWellFormed nodes → Node.AllScoped scope nodes → AllReread limit write scope nodes
  | [], _, _, _ => trivial
  | node :: rest, _, ⟨h, h'⟩, ⟨s, s'⟩ =>
      ⟨rereads denotes node _ h s, allReread denotes rest _ h' s'⟩

end

end RubyReader
