/-
# `Headings` — parameters with and without parentheses

    def m a, b              def m(a, b)

The rules of the two lists are written apart.  Of a list on one line both make the same
parameters, and the body is read in the same scope, so both programs are read as the same
tree, or neither is.  But behind a comma a line may end only in parentheses, and what is wrong
with a list is found in different places (`Heading.program_spellings`):

    names                            without parentheses     in parentheses
    distinct, on one line            read with the body      read with the body
    distinct, on more lines          line end refused        read with the body
    repeated on the first line       name refused            name refused
    repeated on a line behind it     line end refused        name refused
-/
import Mathlib
import RubyReader.Proofs.Lines
import RubyReader.Proofs.ParameterLists

namespace RubyReader

open Node (Alike AllAlike)

/-! ## Tokens elsewhere

Places do not matter to the end that a list may lack, nor to whether names are new. -/

/-- The same tokens, at any places. -/
def Elsewhere (tokens tokens' : List Token) : Prop :=
  tokens'.map (Token.relocate nowhere) = tokens.map (Token.relocate nowhere)

namespace Elsewhere

variable {token token' : Token} {before tokens tokens' : List Token}

theorem symm (h : Elsewhere tokens tokens') : Elsewhere tokens' tokens := Eq.symm h

theorem cons_iff : Elsewhere (token :: tokens) (token' :: tokens') ↔
    (∃ place, token' = { token with position := place }) ∧ Elsewhere tokens tokens' := by
  rw [Elsewhere, List.map_cons, List.map_cons, List.cons.injEq, Token.relocate_nowhere_eq_iff,
    Elsewhere]

theorem literals_eq (h : Elsewhere tokens tokens') :
    tokens'.map (·.literal) = tokens.map (·.literal) := by
  have literals (tokens : List Token) :
      tokens.map (·.literal) = (tokens.map (Token.relocate nowhere)).map (·.literal) := by
    rw [List.map_map]
    rfl
  rw [literals, h, ← literals]

theorem spread (h : Elsewhere tokens tokens') : Spread before tokens tokens' := by
  induction tokens generalizing before tokens' with
  | nil =>
      obtain rfl := List.map_eq_nil_iff.mp h
      exact .nil
  | cons token tokens ih =>
      cases tokens' with
      | nil => cases h
      | cons token' tokens' =>
          obtain ⟨⟨place, rfl⟩, rest⟩ := cons_iff.mp h
          exact .keep place (ih rest)

theorem completed (h : Elsewhere tokens tokens') {last last' : Token}
    (same : last'.kind = last.kind) :
    Elsewhere (Cursor.completed last tokens) (Cursor.completed last' tokens') := by
  induction tokens generalizing last last' tokens' with
  | nil =>
      obtain rfl := List.map_eq_nil_iff.mp h
      rw [Cursor.completed, Cursor.completed, Token.isEof, Token.isEof, same]
      split <;> rfl
  | cons token tokens ih =>
      cases tokens' with
      | nil => cases h
      | cons token' tokens' =>
          obtain ⟨⟨place, rfl⟩, rest⟩ := cons_iff.mp h
          exact cons_iff.mpr ⟨⟨place, rfl⟩, ih rest rfl⟩

end Elsewhere

theorem Cursor.completed_append (first last : Token) (front rest : List Token) :
    completed first (front ++ last :: rest) = front ++ last :: completed last rest := by
  induction front generalizing first with
  | nil => rfl
  | cons token front ih => rw [List.cons_append, completed, ih, List.cons_append]

theorem Elsewhere.parameters {names names' : List Token} (h : Elsewhere names names') :
    AllAlike (names'.map Token.parameter) (names.map Token.parameter) := by
  have moved (names : List Token) : Node.relocateAll nowhere (names.map Token.parameter)
      = (names.map (Token.relocate nowhere)).map Token.parameter := by
    rw [Node.relocateAll_eq_map, List.map_map, List.map_map]
    rfl
  rw [AllAlike, moved, h, ← moved]

theorem AllNew.elsewhere {scope : Names} {names names' : List Token} (h : AllNew scope names)
    (same : Elsewhere names names') : AllNew scope names' := by
  rw [allNew_iff, same.literals_eq]
  exact allNew_iff.mp h

/-! ## Methods behind their parameters -/

/-- Behind its parameters, which are these, the body of a method is read from another parser. -/
def Parser.ReadsBodyFrom (limit : Option Nat) (p : Parser) (params : List Node) (s : Parser) :
    Prop :=
  ∀ found body q, Reads limit .method p (found, body) q ↔
    found = params ∧ ∃ r, Reads limit (.statements .kwEnd) s.skipLines body r ∧
      r.token.kind = .kwEnd ∧ q = r.advance.withScope p.scope

section

variable {limit : Option Nat} {p p' q s s' : Parser} {rest rest' tokens tokens' : List Token}
  {scope : Names} {depth : Nat} {list : ParameterList} {line line' : Terminal .newline}

/-- A phrase is read in one way. -/
theorem Reads.unique {goal : Goal} {a b : goal.Result} {r : Parser} (h : Reads limit goal p a q)
    (h' : Reads limit goal p b r) : a = b ∧ q = r := by
  have same := (Parser.read_eq_ok_iff.mpr h).symm.trans (Parser.read_eq_ok_iff.mpr h')
  obtain ⟨result, parser⟩ := Prod.mk.inj same
  exact ⟨Except.ok.inj result, parser⟩

variable (limit) in
/-- New names on one line are the parameters of a method. -/
theorem ParameterList.readsBodyFrom_bare (oneLine : list.firstBreak? = none)
    (allNew : AllNew .empty list.names)
    (stands : p.Stands (list.tokens ++ line.1 :: rest) scope depth) :
    ∃ s, p.ReadsBodyFrom limit (list.names.map Token.parameter) s ∧
      s.Stands (line.1 :: rest) (.ofList (list.names.map (·.literal))) depth := by
  have named := ParameterList.named stands
  obtain ⟨s, reads, behind⟩ :=
    list.reads_bare oneLine allNew (by rw [line.2]; decide) (stands.withScope .empty)
  refine ⟨s, fun found body q => ⟨fun h => ?_, ?_⟩, behind⟩
  · cases h with
    | methodAlone ends => simp [TokenKind.EndsStatement, named] at ends
    | methodNone opening => cases named.symm.trans opening
    | methodList opening => cases named.symm.trans opening
    | methodBare _ _ list _ body closing =>
        obtain ⟨rfl, rfl⟩ := list.unique reads
        exact ⟨rfl, _, body, closing, rfl⟩
  · rintro ⟨rfl, r, body, closing, rfl⟩
    exact .methodBare (by simp [named]) (by simp [TokenKind.EndsStatement, named]) reads
      (.inl behind.kind_eq) body closing

variable (limit) in
/-- New names between parentheses are the parameters of a method. -/
theorem ParameterList.readsBodyFrom_wrapped {opening : Terminal .lparen}
    {closing : Terminal .rparen} (allNew : AllNew .empty list.names)
    (stands : p.Stands (opening.1 :: (list.tokens ++ closing.1 :: line.1 :: rest)) scope depth) :
    ∃ s, p.ReadsBodyFrom limit (list.names.map Token.parameter) s ∧
      s.Stands (line.1 :: rest) (.ofList (list.names.map (·.literal))) depth := by
  have opens : p.token.kind = .lparen := stands.kind_eq
  obtain ⟨inside, named⟩ := stands.enterList
  obtain ⟨s, reads, behind⟩ := list.reads_wrapped allNew inside
  refine ⟨s, fun found body q => ⟨fun h => ?_, ?_⟩, behind⟩
  · cases h with
    | methodAlone ends => simp [TokenKind.EndsStatement, opens] at ends
    | methodNone _ none => cases named.symm.trans none
    | methodBare other => exact absurd opens other
    | methodList _ _ list _ body closing =>
        obtain ⟨rfl, rfl⟩ := list.unique reads
        exact ⟨rfl, _, body, closing, rfl⟩
  · rintro ⟨rfl, r, body, closing, rfl⟩
    exact .methodList opens (by simp [named]) reads (.inl behind.kind_eq) body closing

theorem Beside.of_stands (h : s.Stands (line.1 :: rest) scope depth)
    (h' : s'.Stands (line'.1 :: rest') scope depth) (same : Elsewhere rest rest') :
    Beside .spread s.skipLines s'.skipLines := by
  have behind := h.pass (by decide)
  have behind' := h'.pass (by decide)
  have beside : Beside .spread s.advance s'.advance := by
    refine ⟨?_, behind'.scope_eq.trans behind.scope_eq.symm,
      Nat.le_of_eq (behind'.depth_eq.trans behind.depth_eq.symm)⟩
    rw [behind.upcoming, behind'.upcoming]
    exact same.spread.respelled
  rw [Parser.skipLines_of_newline h.kind_eq, Parser.skipLines_of_newline h'.kind_eq]
  exact (beside.skipLines (Nat.zero_le _)).beside

/-- Wherever a method is read from one parser it is read from the other, up to places. -/
def Parser.Respells (limit : Option Nat) (p p' : Parser) : Prop :=
  ∀ params body q, Reads limit .method p (params, body) q →
    ∃ params' body' q', Reads limit .method p' (params', body') q' ∧ AllAlike params' params ∧
      AllAlike body' body ∧ Abreast .spread q q'

theorem Parser.ReadsBodyFrom.respells {params params' : List Node}
    (h : p.ReadsBodyFrom limit params s) (h' : p'.ReadsBodyFrom limit params' s')
    (alike : AllAlike params' params) (same : Beside .spread s.skipLines s'.skipLines)
    (scope_eq : p'.scope = p.scope) : p.Respells limit p' := by
  intro found body q reads
  obtain ⟨rfl, r, statements, closing, rfl⟩ := (h found body q).mp reads
  obtain ⟨body', r', statements', alike', behind⟩ := statements.statements_spread (by decide) same
  obtain ⟨closing', after⟩ := behind.pass closing (by decide)
  refine ⟨params', body', r'.advance.withScope p'.scope,
    (h' ..).mpr ⟨rfl, r', statements', closing', rfl⟩, alike, alike', ?_⟩
  rw [scope_eq]
  exact after.withScope p.scope

end

/-! ## Programs that begin with a definition

What is shown of a method carries over to its definition, to the statements that it begins
and to the outcome of the program; and so does a failure. -/

section

variable {limit : Option Nat} {p p' q : Parser} {tokens tokens' : List Token} {scope : Names}
  {depth : Nat} {node : Node} {nodes : List Node} {opening opening' : Terminal .kwDef}
  {name name' : Terminal .identifier}

theorem Reads.respell_definition (h : Reads limit (.leading .definition) p node q)
    (stands : p.Stands (opening.1 :: name.1 :: tokens) scope depth)
    (stands' : p'.Stands (opening'.1 :: name'.1 :: tokens') scope depth)
    (same : Elsewhere [name.1] [name'.1])
    (method : p.advance.advance.Respells limit p'.advance.advance) :
    ∃ node' q', Reads limit (.leading .definition) p' node' q' ∧ node'.Alike node ∧
      Abreast .spread q q' := by
  have next := stands.pass (by decide)
  have next' := stands'.pass (by decide)
  cases h with
  | @definition _ _ params body _ _ reads =>
      obtain ⟨params', body', q', reads', alike, alike', abreast⟩ := method _ _ _ reads
      refine ⟨_, q', .definition stands'.kind_eq next'.kind_eq reads', ?_, abreast⟩
      obtain ⟨⟨place, same⟩, -⟩ := Elsewhere.cons_iff.mp same
      rw [next.token_eq, next'.token_eq, same]
      exact .definition ⟨name.1, false⟩ alike alike'

theorem Reads.respell (h : Reads limit (.statements .eof) p nodes q)
    (stands : p.Stands (opening.1 :: name.1 :: tokens) scope depth)
    (stands' : p'.Stands (opening'.1 :: name'.1 :: tokens') scope depth)
    (same : Elsewhere [name.1] [name'.1])
    (method : p.opened.advance.advance.Respells limit p'.opened.advance.advance) :
    ∃ nodes' q', Reads limit (.statements .eof) p' nodes' q' ∧ AllAlike nodes' nodes ∧
      q'.scope = q.scope := by
  have kind : p.token.kind = .kwDef := stands.kind_eq
  have kind' : p'.token.kind = .kwDef := stands'.kind_eq
  have lines : p.skipLines = p := Parser.skipLines_of_ne (by simp [kind])
  have lines' : p'.skipLines = p' := Parser.skipLines_of_ne (by simp [kind'])
  have opened : p.opened.skipLines = p.opened := Parser.skipLines_of_ne (by simp [kind])
  have opened' : p'.opened.skipLines = p'.opened := Parser.skipLines_of_ne (by simp [kind'])
  cases h with
  | noStatement ends =>
      rw [lines, kind] at ends
      rcases ends with ends | ends <;> cases ends
  | statement _ _ first ends others =>
      rw [lines] at first
      cases first with
      | expression room leads first rest =>
          rw [lines, kind] at leads
          obtain rfl := Option.some.inj leads
          rw [opened] at first
          obtain ⟨left', p₁', first', like, abreast⟩ :=
            first.respell_definition stands.opened stands'.opened same method
          have settled := first.settles
          obtain ⟨node', q₁', rest', alike, behind⟩ :=
            rest.continuation_spread settled like abreast
          have there := behind.closed.toBeside
          have inStep :=
            there.inStep_of_endsStatement (rest.settles settled) (Nat.zero_le _) ends
          obtain ⟨nodes', q', others', alike', finish⟩ :=
            others.statements_spread (by decide) (there.skipLines (Nat.zero_le _)).beside
          have room' : p'.isFull limit = false := by
            rwa [Parser.isFull, stands'.depth_eq, ← stands.depth_eq]
          have leads' : p'.skipLines.token.kind.leading? = some .definition := by
            rw [lines', kind']
            rfl
          have reads : Reads limit (.expression .lowest) p'.skipLines node' q₁'.closed := by
            rw [lines']
            exact .expression room' leads' (by rwa [opened']) rest'
          exact ⟨node' :: nodes', q', .statement (by simp [lines', kind'])
            (by simp [lines', kind']) reads (by rwa [inStep.kind_eq]) others',
            .cons alike alike', finish.scope_eq⟩

theorem Parser.program_respell (read : p.program = (.ok node, q))
    (stands : p.Stands (opening.1 :: name.1 :: tokens) scope depth)
    (stands' : p'.Stands (opening'.1 :: name'.1 :: tokens') scope depth)
    (same : Elsewhere [name.1] [name'.1])
    (method : p.opened.advance.advance.Respells (some nestingLimit) p'.opened.advance.advance) :
    ∃ node' q', p'.program = (.ok node', q') ∧ node'.Alike node ∧ q'.scope = q.scope := by
  obtain ⟨nodes, rfl, reads⟩ := program_eq_ok_iff.mp read
  obtain ⟨nodes', q', reads', alike, scope_eq⟩ := reads.respell stands stands' same method
  exact ⟨_, q', program_eq_ok_iff.mpr ⟨nodes', rfl, reads'⟩, .block alike, scope_eq⟩

theorem Parser.program_fails {e : ParseError}
    (failed : p.opened.advance.advance.Fails (some nestingLimit) .method e)
    (stands : p.Stands (opening.1 :: name.1 :: tokens) scope 0) : p.program.1 = .error e := by
  have room : p.isFull (some nestingLimit) = false :=
    decide_eq_false (by rw [stands.depth_eq]; decide)
  obtain ⟨q, failed⟩ := failed.statements room stands
  rw [program_eq_error_iff.mpr failed]

end

/-! ## The two spellings -/

/-- A program that begins with the definition of a method with parameters: what both of its
spellings are made of. -/
structure Heading where
  opening : Terminal .kwDef
  name : Terminal .identifier
  lparen : Terminal .lparen
  params : ParameterList
  rparen : Terminal .rparen
  line : Terminal .newline
  /-- the body, its end, and whatever stands behind -/
  rest : List Token

namespace Heading

def bare (h : Heading) : List Token :=
  h.opening.1 :: h.name.1 :: (h.params.tokens ++ h.line.1 :: h.rest)

def wrapped (h : Heading) : List Token :=
  h.opening.1 :: h.name.1 :: h.lparen.1 :: (h.params.tokens ++ h.rparen.1 :: h.line.1 :: h.rest)

/-- The same method with the same parameters and the same behind it, at any places; lines may
end elsewhere between the parameters. -/
structure Same (h h' : Heading) : Prop where
  name : Elsewhere [h.name.1] [h'.name.1]
  params : Elsewhere h.params.names h'.params.names
  rest : Elsewhere h.rest h'.rest

/-- What is behind the line of the heading, up to the end of the input. -/
def behind (h : Heading) : List Token := Cursor.completed h.line.1 h.rest

theorem Same.behind {h h' : Heading} (same : h.Same h') : Elsewhere h.behind h'.behind :=
  same.rest.completed (by rw [h.line.2, h'.line.2])

variable (h : Heading) (scope symbols : Names)

theorem stands_bare : (Parser.ofTokens h.bare scope symbols).Stands
    (h.opening.1 :: h.name.1 :: (h.params.tokens ++ h.line.1 :: h.behind)) scope 0 := by
  refine ⟨?_, rfl, rfl⟩
  show h.opening.1 :: Cursor.completed h.opening.1 (h.name.1 :: _) = _
  rw [Cursor.completed, Cursor.completed_append]
  rfl

theorem stands_wrapped : (Parser.ofTokens h.wrapped scope symbols).Stands
    (h.opening.1 :: h.name.1 :: h.lparen.1 ::
      (h.params.tokens ++ h.rparen.1 :: h.line.1 :: h.behind)) scope 0 := by
  refine ⟨?_, rfl, rfl⟩
  show h.opening.1 :: Cursor.completed h.opening.1 (h.name.1 :: h.lparen.1 :: _) = _
  rw [Cursor.completed, Cursor.completed, Cursor.completed_append, Cursor.completed]
  rfl

end Heading

/-- Two programs are read as the same tree, up to places, and declare the same variables; or
neither is read. -/
def ReadAlike (a b : Outcome Node) : Prop :=
  (∃ node node' q q', a = (.ok node, q) ∧ b = (.ok node', q') ∧ node'.Alike node ∧
      q'.scope = q.scope) ∨
    ∃ e e' q q', a = (.error e, q) ∧ b = (.error e', q')

/-- It is enough that the second is read wherever the first is, as the same tree, and the first
wherever the second is. -/
theorem ReadAlike.of_imp {a b : Outcome Node}
    (forward : ∀ node q, a = (.ok node, q) →
      ∃ node' q', b = (.ok node', q') ∧ node'.Alike node ∧ q'.scope = q.scope)
    (back : ∀ node q, b = (.ok node, q) → ∃ node' q', a = (.ok node', q')) : ReadAlike a b := by
  obtain ⟨result, p⟩ := a
  obtain ⟨result', p'⟩ := b
  cases result with
  | ok node =>
      obtain ⟨node', q', found, alike⟩ := forward node p rfl
      exact .inl ⟨node, node', p, q', rfl, found, alike⟩
  | error e =>
      cases result' with
      | error e' => exact .inr ⟨e, e', p, p', rfl, rfl⟩
      | ok node =>
          obtain ⟨node', q', found⟩ := back node p' rfl
          cases found

namespace Heading

variable {h h' : Heading} {scope symbols symbols' : Names} {token : Token}

/-- Without parentheses a repeated name on the first line is blamed. -/
theorem bare_repeated (known : FirstKnown .empty h.params.firstLine token) :
    (Parser.ofTokens h.bare scope symbols).program.1
      = .error (.malformed (.blame .duplicatedArgument token)) := by
  have stands := h.stands_bare scope symbols
  have list := (stands.opened.pass (by decide)).pass (by decide)
  have failed : Parser.Fails (some nestingLimit) .bareParameters _ _ :=
    h.params.bare_fails known (list.withScope .empty)
  exact Parser.program_fails (failed.bareMethod (ParameterList.named list)) stands

/-- Without one a line end between the parameters is. -/
theorem bare_broken (line : h.params.firstBreak? = some token)
    (allNew : AllNew .empty h.params.firstLine) :
    (Parser.ofTokens h.bare scope symbols).program.1
      = .error (.malformed (.blame (.unexpected token .parameterName) token)) := by
  have stands := h.stands_bare scope symbols
  have list := (stands.opened.pass (by decide)).pass (by decide)
  have failed : Parser.Fails (some nestingLimit) .bareParameters _ _ :=
    h.params.bare_fails_of_break line allNew (list.withScope .empty)
  exact Parser.program_fails (failed.bareMethod (ParameterList.named list)) stands

/-- In parentheses a repeated name is blamed wherever it stands. -/
theorem wrapped_repeated (known : FirstKnown .empty h.params.names token) :
    (Parser.ofTokens h.wrapped scope symbols).program.1
      = .error (.malformed (.blame .duplicatedArgument token)) := by
  have stands := h.stands_wrapped scope symbols
  have list := (stands.opened.pass (by decide)).pass (by decide)
  obtain ⟨inside, named⟩ := list.enterList
  have failed : Parser.Fails (some nestingLimit) .parameters _ _ :=
    h.params.wrapped_fails known inside
  exact Parser.program_fails (failed.wrappedMethod list.kind_eq named) stands

/-- On one line new names are read alike in both spellings, wherever lines end in parentheses. -/
theorem readAlike (same : h.Same h') (oneLine : h.params.firstBreak? = none)
    (allNew : AllNew .empty h.params.names) :
    ReadAlike (Parser.ofTokens h.bare scope symbols).program
      (Parser.ofTokens h'.wrapped scope symbols').program := by
  have bare := h.stands_bare scope symbols
  have wrapped := h'.stands_wrapped scope symbols'
  obtain ⟨s, body, behind⟩ := h.params.readsBodyFrom_bare (some nestingLimit) oneLine allNew
    ((bare.opened.pass (by decide)).pass (by decide))
  obtain ⟨s', body', behind'⟩ := h'.params.readsBodyFrom_wrapped (some nestingLimit)
    (allNew.elsewhere same.params) ((wrapped.opened.pass (by decide)).pass (by decide))
  rw [same.params.literals_eq] at behind'
  have respells := body.respells body' same.params.parameters
    (.of_stands behind behind' same.behind) rfl
  have respells' := body'.respells body same.params.symm.parameters
    (.of_stands behind' behind same.behind.symm) rfl
  refine .of_imp (fun node q read => Parser.program_respell read bare wrapped same.name respells)
    (fun node q read => ?_)
  obtain ⟨node', q', read', -⟩ :=
    Parser.program_respell read wrapped bare same.name.symm respells'
  exact ⟨node', q', read'⟩

/-- A list of parameters on one line and the same in parentheses, on any number of lines, agree:
both programs are read, as the same tree up to places, or neither is.  Both blame the first name
that repeats one before it; without parentheses only one on the first line, if there is more than
one line, and if there is none, the line end. -/
theorem program_spellings (same : h.Same h') :
    let bare := (Parser.ofTokens h.bare scope symbols).program
    let wrapped := (Parser.ofTokens h'.wrapped scope symbols').program
    (h.params.firstBreak? = none → ReadAlike bare wrapped) ∧
      (∀ token, FirstRepeat h'.params.names token →
        wrapped.1 = .error (.malformed (.blame .duplicatedArgument token))) ∧
      (∀ token, FirstRepeat h.params.firstLine token →
        bare.1 = .error (.malformed (.blame .duplicatedArgument token))) ∧
      ∀ line, h.params.firstBreak? = some line → (h.params.firstLine.map (·.literal)).Nodup →
        bare.1 = .error (.malformed (.blame (.unexpected line .parameterName) line)) := by
  intro bare wrapped
  refine ⟨fun oneLine => ?_, fun token repeated => wrapped_repeated repeated.firstKnown,
    fun token repeated => bare_repeated repeated.firstKnown,
    fun line broken nodup => bare_broken broken (allNew_empty.mpr nodup)⟩
  by_cases allNew : AllNew .empty h.params.names
  · exact readAlike same oneLine allNew
  · have allNew' : ¬ AllNew .empty h'.params.names :=
      fun new => allNew (new.elsewhere same.params.symm)
    obtain ⟨token, known⟩ := (allNew_or_firstKnown .empty h.params.names).resolve_left allNew
    obtain ⟨token', known'⟩ := (allNew_or_firstKnown .empty h'.params.names).resolve_left allNew'
    have refused : bare.1 = _ := bare_repeated (by rwa [ParameterList.firstLine_eq oneLine])
    have refused' : wrapped.1 = _ := wrapped_repeated known'
    exact .inr ⟨_, _, bare.2, wrapped.2, Prod.ext refused rfl, Prod.ext refused' rfl⟩

/-- Two parameters, with so many line ends behind the comma. -/
def pair (lines : List (Terminal .newline)) (second : Position) : ParameterList :=
  .further ⟨.new .identifier "a" ⟨1, 7⟩, rfl⟩ ⟨.new .comma "," ⟨1, 8⟩, rfl⟩ lines
    (.last ⟨.new .identifier "b" second, rfl⟩)

/-- A method that adds its two parameters, of which the list ends on some line. -/
def sum (params : ParameterList) (last : Nat) (column : Nat) : Heading where
  opening := ⟨.new .kwDef "def" ⟨1, 1⟩, rfl⟩
  name := ⟨.new .identifier "m" ⟨1, 5⟩, rfl⟩
  lparen := ⟨.new .lparen "(" ⟨1, 6⟩, rfl⟩
  params := params
  rparen := ⟨.new .rparen ")" ⟨last, column⟩, rfl⟩
  line := ⟨.new .newline "\n" ⟨last, column + 1⟩, rfl⟩
  rest := [.new .identifier "a" ⟨last + 1, 1⟩, .new .plus "+" ⟨last + 1, 3⟩,
    .new .identifier "b" ⟨last + 1, 5⟩, .new .newline "\n" ⟨last + 1, 6⟩,
    .new .kwEnd "end" ⟨last + 2, 1⟩, .endOfInput ⟨last + 2, 4⟩]

/-- On one line without parentheses, and on three lines in parentheses. -/
theorem program_spellings_of_sum :
    ReadAlike (Parser.ofTokens (lex "def m a, b\na + b\nend").tokens .empty .empty).program
      (Parser.ofTokens (lex "def m(a,\n\nb)\na + b\nend").tokens .empty .empty).program := by
  let h := sum (pair [] ⟨1, 10⟩) 1 10
  let h' := sum (pair [⟨.new .newline "\n" ⟨1, 9⟩, rfl⟩, ⟨.new .newline "\n" ⟨2, 1⟩, rfl⟩]
    ⟨3, 1⟩) 3 2
  have tokens : (lex "def m a, b\na + b\nend").tokens = h.bare := by cbv
  have tokens' : (lex "def m(a,\n\nb)\na + b\nend").tokens = h'.wrapped := by cbv
  have same : h.Same h' := ⟨rfl, rfl, rfl⟩
  rw [tokens, tokens']
  exact (program_spellings same).1 rfl

/-- With the same line ends in both the two spellings may differ. -/
theorem spellings_differ :
    ¬ ∀ (h : Heading) (scope symbols : Names),
      ReadAlike (Parser.ofTokens h.bare scope symbols).program
        (Parser.ofTokens h.wrapped scope symbols).program := by
  intro alike
  let h := sum (pair [⟨.new .newline "\n" ⟨1, 9⟩, rfl⟩] ⟨2, 1⟩) 2 2
  have refused : (Parser.ofTokens h.bare .empty .empty).program.1.isOk = false := by cbv
  have read : (Parser.ofTokens h.wrapped .empty .empty).program.1.isOk = true := by cbv
  rcases alike h .empty .empty with ⟨node, node', q, q', found, -⟩ | ⟨e, e', q, q', -, found⟩
  · rw [found] at refused
    cases refused
  · rw [found] at read
    cases read

end Heading

end RubyReader
