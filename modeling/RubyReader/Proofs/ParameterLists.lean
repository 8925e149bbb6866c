/-
# `ParameterLists` — the two loops over parameters

    name , name , … , name                          without parentheses
    name , newline* name , … , newline* name )      in parentheses

A list is its names, and the line ends behind the commas (`ParameterList`).  If all names are
new, both loops make the same parameters of it and leave the same scope, the first of them
only if no line ends in between.  Otherwise they fail, at the first of

    a name that is known        of all names, or of those on the first line
    a line end                  behind a comma, without parentheses

and so does the method, and the program, that the list belongs to.
-/
import Mathlib
import RubyReader.Proofs.Closing
import RubyReader.Proofs.Handlers

namespace RubyReader

/-! ## Lists of parameters -/

/-- Parameters between commas, behind each of which lines may end. -/
inductive ParameterList where
  | last (name : Terminal .identifier)
  | further (name : Terminal .identifier) (comma : Terminal .comma)
      (lines : List (Terminal .newline)) (rest : ParameterList)

namespace ParameterList

def tokens : ParameterList → List Token
  | last name => [name.1]
  | further name comma lines rest => name.1 :: comma.1 :: (lines.map (·.1) ++ rest.tokens)

def names : ParameterList → List Token
  | last name => [name.1]
  | further name _ _ rest => name.1 :: rest.names

/-- The names up to where a line ends. -/
def firstLine : ParameterList → List Token
  | last name => [name.1]
  | further name _ [] rest => name.1 :: rest.firstLine
  | further name _ (_ :: _) _ => [name.1]

/-- The first line end between the parameters. -/
def firstBreak? : ParameterList → Option Token
  | last _ => none
  | further _ _ [] rest => rest.firstBreak?
  | further _ _ (line :: _) _ => some line.1

theorem firstLine_eq {list : ParameterList} (h : list.firstBreak? = none) :
    list.firstLine = list.names := by
  induction list with
  | last name => rfl
  | further name comma lines rest ih =>
      cases lines with
      | nil => rw [firstLine, names, ih h]
      | cons line lines => cases h

theorem further_append (name : Terminal .identifier) (comma : Terminal .comma)
    (lines : List (Terminal .newline)) (list : ParameterList) (behind : List Token) :
    (further name comma lines list).tokens ++ behind
      = name.1 :: comma.1 :: (lines.map (·.1) ++ (list.tokens ++ behind)) := by
  rw [tokens, List.cons_append, List.cons_append, List.append_assoc]

theorem exists_tokens_eq (list : ParameterList) :
    ∃ (name : Terminal .identifier) (rest : List Token), list.tokens = name.1 :: rest := by
  cases list with
  | last name => exact ⟨name, _, rfl⟩
  | further name comma lines rest => exact ⟨name, _, rfl⟩

end ParameterList

/-- The variable that a parameter declares, as a node. -/
def Token.parameter (token : Token) : Node := .identifier ⟨token, true⟩ token.position

/-! ## Names that are new -/

/-- Names that are new to a scope, each behind those before it. -/
def AllNew (scope : Names) : List Token → Prop
  | [] => True
  | name :: rest => name.literal ∉ scope ∧ AllNew (scope.insert name.literal) rest

theorem allNew_iff {scope : Names} {names : List Token} : AllNew scope names ↔
    (names.map (·.literal)).Nodup ∧ ∀ name ∈ names.map (·.literal), name ∉ scope := by
  induction names generalizing scope with
  | nil => simp [AllNew]
  | cons name rest ih =>
      simp only [AllNew, ih, Names.mem_insert, not_or, List.map_cons, List.nodup_cons,
        List.forall_mem_cons]
      constructor
      · rintro ⟨isNew, nodup, fresh⟩
        exact ⟨⟨fun mem => (fresh _ mem).2 rfl, nodup⟩, isNew,
          fun other mem => (fresh other mem).1⟩
      · rintro ⟨⟨absent, nodup⟩, isNew, fresh⟩
        exact ⟨isNew, nodup, fun other mem => ⟨fresh other mem, fun same => absent (same ▸ mem)⟩⟩

theorem allNew_empty {names : List Token} :
    AllNew .empty names ↔ (names.map (·.literal)).Nodup := by
  rw [allNew_iff]
  exact and_iff_left fun _ _ => List.not_mem_nil

/-- Of some names this is the first that is in scope or repeats one before it. -/
inductive FirstKnown : Names → List Token → Token → Prop
  | here {scope : Names} {name : Token} {rest : List Token} : name.literal ∈ scope →
      FirstKnown scope (name :: rest) name
  | behind {scope : Names} {name known : Token} {rest : List Token} : name.literal ∉ scope →
      FirstKnown (scope.insert name.literal) rest known → FirstKnown scope (name :: rest) known

/-- Of some names this is the first that repeats one before it. -/
def FirstRepeat (names : List Token) (token : Token) : Prop :=
  ∃ before after, names = before ++ token :: after ∧ (before.map (·.literal)).Nodup ∧
    token.literal ∈ before.map (·.literal)

theorem FirstKnown.of_append {scope : Names} {before after : List Token} {token : Token}
    (allNew : AllNew scope before)
    (known : token.literal ∈ scope ∨ token.literal ∈ before.map (·.literal)) :
    FirstKnown scope (before ++ token :: after) token := by
  induction before generalizing scope with
  | nil => exact .here (known.resolve_right List.not_mem_nil)
  | cons name before ih =>
      refine .behind allNew.1 (ih allNew.2 ?_)
      rw [List.map_cons, List.mem_cons, ← or_assoc] at known
      exact known.imp_left Names.mem_insert.mpr

theorem FirstRepeat.firstKnown {names : List Token} {token : Token}
    (h : FirstRepeat names token) : FirstKnown .empty names token := by
  obtain ⟨before, after, rfl, nodup, repeats⟩ := h
  exact .of_append (allNew_empty.mpr nodup) (.inr repeats)

/-- All names are new, or one is the first that is not. -/
theorem allNew_or_firstKnown (scope : Names) (names : List Token) :
    AllNew scope names ∨ ∃ known, FirstKnown scope names known := by
  induction names generalizing scope with
  | nil => exact .inl trivial
  | cons name rest ih =>
      by_cases known : name.literal ∈ scope
      · exact .inr ⟨name, .here known⟩
      · rcases ih (scope.insert name.literal) with allNew | ⟨other, first⟩
        · exact .inl ⟨known, allNew⟩
        · exact .inr ⟨other, .behind known first⟩

/-! ## Lists that are read

In parentheses line ends are passed in front of the list and behind its commas.  Each name
is new where it is read, since those before it have been declared by then. -/

section

variable {limit : Option Nat} {p q : Parser} {token : Token} {tokens rest : List Token}
  {scope : Names} {depth : Nat} {name : Terminal .identifier} {list : ParameterList}

theorem Parser.Stands.passLines {lines : List (Terminal .newline)}
    (h : p.Stands (lines.map (·.1) ++ token :: rest) scope depth) (other : token.kind ≠ .newline) :
    p.skipLines.Stands (token :: rest) scope depth := by
  refine ⟨Cursor.upcoming_skipLines_of_lines ?_ other h.upcoming, h.scope_eq, h.depth_eq⟩
  rintro _ mem
  obtain ⟨line, -, rfl⟩ := List.mem_map.mp mem
  exact line.2

theorem Parser.Stands.passOn (lines : List (Terminal .newline))
    (h : p.Stands (lines.map (·.1) ++ (list.tokens ++ rest)) scope depth) :
    p.skipLines.Stands (list.tokens ++ rest) scope depth := by
  obtain ⟨name, more, begins⟩ := list.exists_tokens_eq
  rw [begins, List.cons_append] at h ⊢
  exact h.passLines (by rw [name.2]; decide)

theorem ParameterList.named (stands : p.Stands (list.tokens ++ rest) scope depth) :
    p.token.kind = .identifier := by
  obtain ⟨name, more, begins⟩ := list.exists_tokens_eq
  rw [begins] at stands
  exact stands.kind_eq

/-- Behind an opening parenthesis stands the list, and in front of it a name. -/
theorem Parser.Stands.enterList {paren : Terminal .lparen}
    (h : p.Stands (paren.1 :: (list.tokens ++ rest)) scope depth) :
    ((p.withScope .empty).advance.skipLines).Stands (list.tokens ++ rest) .empty depth ∧
      p.advance.skipLines.token.kind = .identifier := by
  have inside := ((h.withScope .empty).pass (by decide)).passOn []
  have named : (p.withScope .empty).advance.skipLines.token.kind = .identifier :=
    ParameterList.named inside
  exact ⟨inside, named⟩

/-- A new name is read as a parameter, and is in scope behind it. -/
theorem Parser.Stands.reads_parameter (h : p.Stands (name.1 :: tokens) scope depth)
    (isNew : name.1.literal ∉ scope) :
    ∃ q, Reads limit .parameter p name.1.parameter q ∧
      q.Stands tokens (scope.insert name.1.literal) depth := by
  have reads : Reads limit .parameter p _ _ :=
    .parameter h.kind_eq (by rwa [h.token_eq, h.scope_eq])
  rw [h.token_eq] at reads
  exact ⟨_, reads, (h.declare _).pass (by decide)⟩

/-- On one line new names are read without parentheses. -/
theorem ParameterList.reads_bare (oneLine : list.firstBreak? = none)
    (allNew : AllNew scope list.names) (noComma : token.kind ≠ .comma)
    (stands : p.Stands (list.tokens ++ token :: rest) scope depth) :
    ∃ q, Reads limit .bareParameters p (list.names.map Token.parameter) q ∧
      q.Stands (token :: rest) (scope.insertAll (list.names.map (·.literal))) depth := by
  induction list generalizing p scope with
  | last name =>
      obtain ⟨q, reads, behind⟩ := stands.reads_parameter allNew.1
      exact ⟨q, .lastBareParameter reads (by rwa [behind.token_eq]), behind⟩
  | further name comma lines others ih =>
      rw [further_append] at stands
      cases lines with
      | cons line lines => cases oneLine
      | nil =>
          obtain ⟨p₁, reads, between⟩ := stands.reads_parameter allNew.1
          obtain ⟨q, readsRest, behind⟩ := ih oneLine allNew.2 (between.pass (by decide))
          exact ⟨q, .bareParameter reads between.kind_eq readsRest, behind⟩

/-- Between parentheses new names are read on any number of lines. -/
theorem ParameterList.reads_wrapped {closing : Terminal .rparen}
    (allNew : AllNew scope list.names)
    (stands : p.Stands (list.tokens ++ closing.1 :: rest) scope depth) :
    ∃ q, Reads limit .parameters p (list.names.map Token.parameter) q ∧
      q.Stands rest (scope.insertAll (list.names.map (·.literal))) depth := by
  induction list generalizing p scope with
  | last name =>
      obtain ⟨q, reads, behind⟩ := stands.reads_parameter allNew.1
      have same : q.skipLines = q := behind.lines (by rw [closing.2]; decide)
      have last : Reads limit .parameters p [name.1.parameter] q.skipLines.advance :=
        .lastParameter reads (by rw [same, behind.kind_eq])
      rw [same] at last
      exact ⟨q.advance, last, behind.pass (by decide)⟩
  | further name comma lines others ih =>
      rw [further_append] at stands
      obtain ⟨p₁, reads, between⟩ := stands.reads_parameter allNew.1
      have same : p₁.skipLines = p₁ := between.lines (by rw [comma.2]; decide)
      have behindLines := (between.pass (by decide)).passOn lines
      obtain ⟨q, readsRest, behind⟩ := ih allNew.2 behindLines
      refine ⟨q, .furtherParameter reads ?_ ?_, behind⟩
      · rw [same, between.kind_eq]
      · rwa [same]

end

/-! ## What is not read

A failure is carried outwards: from a parameter to the list, over the parameters in front of
it, and on to the method and the statements.  A rule fails with the phrase that it asks for
first. -/

/-- From a parser a phrase is not read, and this is why. -/
def Parser.Fails (limit : Option Nat) (goal : Goal) (p : Parser) (e : ParseError) : Prop :=
  ∃ q, p.read limit goal = (.error e, q)

section

variable {limit : Option Nat} {p p₁ q : Parser} {goal inner : Goal} {e : ParseError} {node : Node}

theorem Parser.fails_of_run (room : goal.isRefused limit p = false)
    (run : goal.routine.run (fun inner q => some (q.read limit inner)) (goal.enter p)
      = some (.error e, q)) : p.Fails limit goal e := by
  have around := Goal.around_of_room room run
  rw [← Parser.read_eq] at around
  exact ⟨_, Option.some.inj around⟩

theorem Routine.run_of_first? {α : Type} {p q' : Parser}
    {nested : (goal : Goal) → Parser → Option (Outcome goal.Result)} {r : Routine α}
    (first : r.first? p = some (inner, q)) (failed : nested inner q = some (.error e, q')) :
    r.run nested p = some (.error e, q') := by
  induction r generalizing p with
  | done => cases first
  | fail => cases first
  | current go ih => exact ih _ first
  | next go ih => exact ih _ first
  | previous go ih => exact ih _ first
  | advance go ih => exact @ih p.advance first
  | skipLines go ih => exact @ih p.skipLines first
  | isLocal name go ih => exact ih _ first
  | declare name go ih => exact @ih _ (p.declare name) first
  | intern name go ih => exact @ih (p.intern name) first
  | read goal go ih =>
      obtain ⟨rfl, rfl⟩ := Prod.mk.inj (Option.some.inj first)
      rw [run, failed]

theorem Parser.Fails.of_first? (failed : q.Fails limit inner e)
    (first : goal.first? limit p = some (inner, q)) : p.Fails limit goal e := by
  obtain ⟨q', failed⟩ := failed
  have asks : goal.isRefused limit p = false ∧
      goal.routine.first? (goal.enter p) = some (inner, q) := by
    cases goal with
    | expression min =>
        by_cases full : p.isFull limit = true
        · simp [Goal.first?, full] at first
        · rw [Goal.first?, if_neg full] at first
          exact ⟨Bool.eq_false_iff.mpr full, first⟩
    | _ => exact ⟨rfl, first⟩
  exact fails_of_run asks.1 (Routine.run_of_first? asks.2 (congrArg some failed))

theorem Parser.fails_of_known (named : p.token.kind = .identifier)
    (known : p.token.literal ∈ p.scope) :
    p.Fails limit .parameter (.malformed (.blame .duplicatedArgument p.token)) := by
  refine fails_of_run rfl (q := p.declare p.token.literal) ?_
  have named : p.cursor.current.kind = .identifier := named
  have known : p.scope.contains p.cursor.current.literal = true := Names.contains_iff.mpr known
  simp only [Goal.routine, Goal.enter, Grammar.parameter, bind, Routine.bind,
    Routine.currentToken, Routine.declareLocal, ↓reduceIte, Routine.run, named, known]
  rfl

theorem Parser.fails_of_line (line : p.token.kind = .newline) :
    p.Fails limit .parameter
      (.malformed (.blame (.unexpected p.token .parameterName) p.token)) := by
  refine fails_of_run rfl (q := p) ?_
  have line : p.cursor.current.kind = .newline := line
  simp only [Goal.routine, Goal.enter, Grammar.parameter, bind, Routine.bind,
    Routine.currentToken, Routine.run, line]
  rfl

theorem Parser.Fails.furtherBare (failed : p₁.advance.Fails limit .bareParameters e)
    (first : Reads limit .parameter p node p₁) (comma : p₁.token.kind = .comma) :
    p.Fails limit .bareParameters e := by
  obtain ⟨q, failed⟩ := failed
  refine fails_of_run rfl (q := q) ?_
  have first := Parser.read_eq_ok_iff.mpr first
  have comma : p₁.cursor.current.kind = .comma := comma
  have failed : Parser.read limit .bareParameters { p₁ with cursor := p₁.cursor.advance } = _ :=
    failed
  simp only [Goal.routine, Goal.enter, Grammar.bareParameters, bind, Routine.bind, Routine.phrase,
    Routine.eat, Routine.currentToken, Routine.step, pure, Routine.run, first, comma, if_true,
    failed]

theorem Parser.Fails.furtherWrapped
    (failed : p₁.skipLines.advance.skipLines.Fails limit .parameters e)
    (first : Reads limit .parameter p node p₁) (comma : p₁.skipLines.token.kind = .comma) :
    p.Fails limit .parameters e := by
  obtain ⟨q, failed⟩ := failed
  refine fails_of_run rfl (q := q) ?_
  have first := Parser.read_eq_ok_iff.mpr first
  have comma : p₁.cursor.skipLines.current.kind = .comma := comma
  have failed : Parser.read limit .parameters
      { p₁ with cursor := p₁.cursor.skipLines.advance.skipLines } = _ := failed
  simp only [Goal.routine, Goal.enter, Grammar.parameters, bind, Routine.bind, Routine.phrase,
    Routine.skipLineEnds, Routine.eat, Routine.currentToken, Routine.step, pure, Routine.run, first,
    comma, if_true, failed]

end

section

variable {limit : Option Nat} {p q : Parser} {e : ParseError} {token : Token}
  {tokens rest : List Token} {scope : Names} {depth : Nat} {opening : Terminal .kwDef}
  {name : Terminal .identifier} {list : ParameterList}

theorem Parser.Stands.fails_of_known (h : p.Stands (name.1 :: rest) scope depth)
    (known : name.1.literal ∈ scope) :
    p.Fails limit .parameter (.malformed (.blame .duplicatedArgument name.1)) := by
  have fails : p.Fails limit .parameter _ :=
    Parser.fails_of_known h.kind_eq (by rwa [h.token_eq, h.scope_eq])
  rwa [h.token_eq] at fails

/-- Without parentheses the first name that is not new is blamed, if it is on the first line. -/
theorem ParameterList.bare_fails (known : FirstKnown scope list.firstLine token)
    (stands : p.Stands (list.tokens ++ rest) scope depth) :
    p.Fails limit .bareParameters (.malformed (.blame .duplicatedArgument token)) := by
  induction list generalizing p scope with
  | last name =>
      cases known with
      | here mem => exact (stands.fails_of_known mem).of_first? rfl
      | behind _ further => cases further
  | further name comma lines others ih =>
      rw [further_append] at stands
      cases lines with
      | nil =>
          cases known with
          | here mem => exact (stands.fails_of_known mem).of_first? rfl
          | behind isNew further =>
              obtain ⟨p₁, reads, between⟩ := stands.reads_parameter isNew
              exact (ih further (between.pass (by decide))).furtherBare reads between.kind_eq
      | cons line lines =>
          cases known with
          | here mem => exact (stands.fails_of_known mem).of_first? rfl
          | behind _ further => cases further

/-- If all of these are new, the line end behind them is blamed. -/
theorem ParameterList.bare_fails_of_break (line : list.firstBreak? = some token)
    (allNew : AllNew scope list.firstLine) (stands : p.Stands (list.tokens ++ rest) scope depth) :
    p.Fails limit .bareParameters
      (.malformed (.blame (.unexpected token .parameterName) token)) := by
  induction list generalizing p scope with
  | last name => cases line
  | further name comma lines others ih =>
      rw [further_append] at stands
      cases lines with
      | nil =>
          obtain ⟨p₁, reads, between⟩ := stands.reads_parameter allNew.1
          exact (ih line allNew.2 (between.pass (by decide))).furtherBare reads between.kind_eq
      | cons first lines =>
          obtain rfl := Option.some.inj line
          obtain ⟨p₁, reads, between⟩ := stands.reads_parameter allNew.1
          have behind := between.pass (by decide)
          have fails : p₁.advance.Fails limit .parameter _ := Parser.fails_of_line behind.kind_eq
          rw [behind.token_eq] at fails
          exact (fails.of_first? rfl).furtherBare reads between.kind_eq

/-- In parentheses the first name that is not new is blamed. -/
theorem ParameterList.wrapped_fails (known : FirstKnown scope list.names token)
    (stands : p.Stands (list.tokens ++ rest) scope depth) :
    p.Fails limit .parameters (.malformed (.blame .duplicatedArgument token)) := by
  induction list generalizing p scope with
  | last name =>
      cases known with
      | here mem => exact (stands.fails_of_known mem).of_first? rfl
      | behind _ further => cases further
  | further name comma lines others ih =>
      rw [further_append] at stands
      cases known with
      | here mem => exact (stands.fails_of_known mem).of_first? rfl
      | behind isNew further =>
          obtain ⟨p₁, reads, between⟩ := stands.reads_parameter isNew
          have same : p₁.skipLines = p₁ := between.lines (by rw [comma.2]; decide)
          have fails := ih further ((between.pass (by decide)).passOn lines)
          rw [← same] at fails between
          exact fails.furtherWrapped reads between.kind_eq

theorem Parser.Fails.bareMethod (failed : (p.withScope .empty).Fails limit .bareParameters e)
    (named : p.token.kind = .identifier) : p.Fails limit .method e := by
  have list : Grammar.parameterList.first? (p.withScope .empty)
      = some (.bareParameters, p.withScope .empty) := by
    rw [Grammar.parameterList, Routine.first?_currentToken, token_withScope, named]
    rfl
  exact failed.of_first? (Routine.first?_bind list _)

theorem Parser.Fails.wrappedMethod
    (failed : (p.withScope .empty).advance.skipLines.Fails limit .parameters e)
    (opens : p.token.kind = .lparen) (named : p.advance.skipLines.token.kind = .identifier) :
    p.Fails limit .method e :=
  failed.of_first? (first?_method opens (by simp [named]))

theorem Parser.Fails.statements (failed : p.opened.advance.advance.Fails limit .method e)
    (room : p.isFull limit = false)
    (stands : p.Stands (opening.1 :: name.1 :: tokens) scope depth) :
    p.Fails limit (.statements .eof) e := by
  have kind : p.token.kind = .kwDef := stands.kind_eq
  have same : p.skipLines = p := skipLines_of_ne (by rw [kind]; decide)
  have same' : p.opened.skipLines = p.opened := skipLines_of_ne (by simp [kind])
  have named : p.opened.advance.token.kind = .identifier := (stands.opened.pass (by decide)).kind_eq
  have definition : p.opened.skipLines.Fails limit (.leading .definition) e := by
    rw [same']
    exact failed.of_first? (first?_definition kind named)
  have expression : p.skipLines.Fails limit (.expression .lowest) e := by
    rw [same]
    exact definition.of_first? (first?_expression .definition room (by rw [same, kind]; rfl))
  exact expression.of_first? (first?_statements (by simp [same, kind]) (by simp [same, kind]))

end

end RubyReader
