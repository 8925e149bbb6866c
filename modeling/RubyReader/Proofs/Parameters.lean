/-
# `Parameters` — what is refused as a parameter, and as what

A parameter that does not begin with a name is read as an expression would begin, and then
refused as the node that came of it, where a name was expected.  But only its first token was
looked at, and what comes of a variable in parentheses is a name.  The scope is that of the
method, so the variable is a parameter in front of it.

    def f(a, 1)       expected a name, found a number
    def f(a, (b))     expected a name, found a call
    def f(a, (a))     expected a name, found a name

So an internal error says that it found what it expected if and only if a parameter is a
variable in parentheses (`unexpectedNode_eq_iff`).
-/
import Mathlib
import RubyReader.Proofs.Closing
import RubyReader.Proofs.Faults

namespace RubyReader

/-! ## Line ends -/

theorem Cursor.exists_lines (c : Cursor) :
    ∃ lines, (∀ t ∈ lines, t.kind = .newline) ∧ c.upcoming = lines ++ c.skipLines.upcoming := by
  refine ⟨c.upcoming.takeWhile fun token => token.kind = .newline, fun t mem => ?_, ?_⟩
  · simpa using List.mem_takeWhile_imp mem
  · rw [upcoming_skipLines, List.takeWhile_append_dropWhile]

/-! ## Variables in parentheses -/

/-- A name, or one between parentheses, inside of which lines may end. -/
inductive Grouped (name : Token) : List Token → Prop
  | name : Grouped name [name]
  | group {opening closing : Token} {lines inside lines' : List Token} :
      opening.kind = .lparen → (∀ t ∈ lines, t.kind = .newline) → Grouped name inside →
      (∀ t ∈ lines', t.kind = .newline) → closing.kind = .rparen →
      Grouped name (opening :: (lines ++ inside ++ lines' ++ [closing]))

/-- A parser stands in front of a variable, in parentheses or not, and then of the rest. -/
def Parser.SeesVariable (p : Parser) (rest : List Token) : Prop :=
  ∃ name front, p.cursor.upcoming = front ++ rest ∧ Grouped name front ∧
    name.kind = .identifier ∧ name.literal ∈ p.scope

/-- A name that is read at the lowest precedence was a variable, in parentheses or not; whatever
goes on from an expression is no name. -/
def Goal.LeavesName : (goal : Goal) → Parser → goal.Result → Parser → Prop
  | .expression min, p, node, q => min = .lowest → node.type = .identifier →
    p.skipLines.SeesVariable q.cursor.upcoming
  | .leading form, p, node, q => node.type = .identifier →
    (form = .name → q.token.kind ≠ .assign) → p.SeesVariable q.cursor.upcoming
  | .following .., _, node, _ => node.type ≠ .identifier
  | .continuation left min, p, node, q => node.type = .identifier →
    node = left ∧ q = p ∧ (min < p.token.precedence → p.token.kind.following? = none)
  | _, _, _, _ => True

/-- In front of the end of the input a parser stands at a token and those behind it. -/
theorem Parser.upcoming_of_ne {p : Parser} (h : p.token.kind ≠ .eof) :
    p.cursor.upcoming = p.token :: p.advance.cursor.upcoming :=
  Cursor.upcoming_of_ne h

theorem Reads.leavesName {limit : Option Nat} {goal : Goal} {p q : Parser} {a : goal.Result}
    (h : Reads limit goal p a q) : goal.LeavesName p a q := by
  induction h with
  | @name p named known =>
      intro _ noTarget
      refine ⟨p.token, [p.token], Parser.upcoming_of_ne (by simp [named]), .name, named, ?_⟩
      exact known.resolve_right (noTarget rfl)
  | @group p q node opening _ _ closing inside =>
      intro named _
      obtain ⟨name, front, all, grouped, kind, known⟩ := inside rfl named
      obtain ⟨lines, lines_newline, ahead⟩ := p.advance.cursor.exists_lines
      obtain ⟨lines', lines_newline', behind⟩ := q.cursor.exists_lines
      have last : q.skipLines.cursor.upcoming
          = q.skipLines.token :: q.skipLines.advance.cursor.upcoming :=
        Parser.upcoming_of_ne (by simp [closing])
      refine ⟨name, _, ?_, .group opening lines_newline grouped lines_newline' closing, kind,
        known⟩
      rw [Parser.skipLines_skipLines] at all
      have all : p.advance.cursor.skipLines.upcoming = front ++ q.cursor.upcoming := all
      have last : q.cursor.skipLines.upcoming
          = q.skipLines.token :: q.skipLines.advance.cursor.upcoming := last
      rw [Parser.upcoming_of_ne (p := p) (by simp [opening]), ahead, all, behind, last]
      simp
  | @expression min form p p₁ q left node _ _ _ _ leads rest =>
      rintro rfl named
      obtain ⟨rfl, rfl, stops⟩ := rest named
      refine leads named fun _ assign => ?_
      have tighter : Precedence.lowest < q.token.precedence := by
        rw [Token.precedence, assign]
        exact Nat.succ_pos 1
      have stops := stops tighter
      rw [assign] at stops
      cases stops
  | longer _ _ _ _ longer rest =>
      intro named
      obtain ⟨rfl, -⟩ := rest named
      exact absurd named longer
  | complete stops => exact fun _ => ⟨rfl, rfl, stops⟩
  | trueLiteral | falseLiteral | nilLiteral | number | symbol | string | selfCall | selfCallWith
  | emptyGroup | definition | assignment | emptyCall | call | emptyCallAgain | callAgain | operator
  | signedNumber | send | sendWith | ternary =>
      intro named
      cases named
  | _ => trivial

theorem Grouped.exists_cons {name : Token} {tokens : List Token} (h : Grouped name tokens)
    (named : name.kind = .identifier) :
    ∃ first more, tokens = first :: more ∧ (first.kind = .identifier ∨ first.kind = .lparen) := by
  cases h with
  | name => exact ⟨_, _, rfl, .inl named⟩
  | group opens _ _ _ _ => exact ⟨_, _, rfl, .inr opens⟩

theorem Parser.following?_of_lines {p : Parser} {lines rest : List Token} {closing : Token}
    (lines_newline : ∀ t ∈ lines, t.kind = .newline) (closes : closing.kind = .rparen)
    (all : p.cursor.upcoming = lines ++ closing :: rest) : p.token.kind.following? = none := by
  cases lines with
  | nil =>
      rw [Parser.token_of_upcoming all, closes]
      rfl
  | cons line lines =>
      rw [Parser.token_of_upcoming all, lines_newline line List.mem_cons_self]
      rfl

/-- A variable, in parentheses or not, is read as a name, and nothing behind it. -/
theorem Reads.type_of_seesVariable {limit : Option Nat} {form : LeadingForm} {p q : Parser}
    {node : Node} {rest : List Token} (h : Reads limit (.leading form) p node q)
    (leads : p.token.kind.leading? = some form) (sees : p.SeesVariable rest) :
    node.type = .identifier ∧ q.cursor.upcoming = rest := by
  obtain ⟨name, front, all, grouped, named, known⟩ := sees
  induction grouped generalizing form p q node rest with
  | name =>
      have here : p.token = name := Parser.token_of_upcoming all
      subst here
      obtain rfl : form = .name := by simpa [named, TokenKind.leading?] using leads.symm
      have behind : p.advance.cursor.upcoming = rest :=
        Parser.upcoming_advance (by simp [named]) all
      cases h with
      | name _ _ => exact ⟨rfl, behind⟩
      | selfCall _ unknown _ _ => exact absurd known unknown
      | selfCallWith _ unknown _ _ _ => exact absurd known unknown
  | @group opening closing lines inside lines' opens lines_newline grouped lines_newline' closes
      ih =>
      have here : p.token = opening := Parser.token_of_upcoming all
      subst here
      obtain rfl : form = .group := by simpa [opens, TokenKind.leading?] using leads.symm
      obtain ⟨first, more, rfl, kind⟩ := grouped.exists_cons named
      have behind : p.advance.cursor.upcoming
          = lines ++ first :: (more ++ (lines' ++ closing :: rest)) := by
        rw [Parser.upcoming_advance (by simp [opens]) all]
        simp
      have ahead : p.advance.skipLines.cursor.upcoming
          = first :: more ++ (lines' ++ closing :: rest) :=
        Cursor.upcoming_skipLines_of_lines lines_newline (by rcases kind with h | h <;> simp [h])
          behind
      have token_eq : p.advance.skipLines.token = first := Parser.token_of_upcoming ahead
      cases h with
      | emptyGroup _ closing =>
          rw [token_eq] at closing
          rcases kind with kind | kind <;> cases kind.symm.trans closing
      | group _ _ inner _ =>
          cases inner with
          | @expression _ form _ p₁ q₁ left _ _ leads inside goesOn =>
              have entered : p.advance.skipLines.opened.skipLines.cursor.upcoming
                  = first :: more ++ (lines' ++ closing :: rest) := by
                have same : p.advance.skipLines.opened.skipLines.cursor
                    = p.advance.skipLines.cursor := Cursor.skipLines_skipLines
                rw [same, ahead]
              obtain ⟨type, after⟩ := ih inside leads entered known
              obtain ⟨rfl, rfl⟩ :=
                goesOn.continuation_eq (Parser.following?_of_lines lines_newline' closes after)
              have last : q₁.skipLines.cursor.upcoming = closing :: rest :=
                Cursor.upcoming_skipLines_of_lines lines_newline' (by simp [closes]) after
              have token_eq : q₁.closed.skipLines.token = closing := Parser.token_of_upcoming last
              exact ⟨type, Parser.upcoming_advance (by rw [token_eq, closes]; decide) last⟩

/-! ## Internal errors -/

namespace Parser

variable {tokens : List Token} {scope symbols : Names} {steps : List (Step × Names)} {step : Step}
  {caller : Names} {expected found : NodeType} {position : Position}

/-- Whatever the tokens and the steps made on them, an internal error expected a name.  It is
that of a parameter that begins otherwise, and says what was read there; this is what was
expected if and only if it was a variable in parentheses. -/
theorem unexpectedNode_eq_iff
    (failed : (((ofTokens tokens scope symbols).after steps).perform caller step).result
      = .error (.internal (.unexpectedNode expected found position))) :
    let p := (ofTokens tokens scope symbols).after steps
    expected = .identifier ∧ ∃ parameter ∈ p.callsOf caller step, ∃ form node q,
      parameter.goal = .parameter ∧ parameter.parser.token.kind ≠ .identifier ∧
      parameter.parser.read (some nestingLimit) (.leading form) = (.ok node, q) ∧
      q.cursor = (p.perform caller step).parser.cursor ∧ found = node.type ∧
      position = node.position ∧
      (found = expected ↔ ∃ name group rest,
        parameter.parser.cursor.upcoming = group ++ rest ∧ Grouped name group ∧
        name.kind = .identifier ∧ name.literal ∈ parameter.parser.scope) := by
  intro p
  obtain ⟨-, -, parameter, mem, form, node, q, -, isParameter, -, -, noName, leads, read, stops,
    e, -⟩ := internal_fault failed
  obtain ⟨rfl, rfl, rfl⟩ := Fault.unexpectedNode.inj e
  refine ⟨rfl, parameter, mem, form, node, q, isParameter, noName, read, stops, rfl, rfl, ?_⟩
  have reads := read_eq_ok_iff.mp read
  constructor
  · intro named
    have noNameForm : form ≠ .name := by
      rintro rfl
      exact noName (TokenKind.startsWith_of_leading leads)
    obtain ⟨name, group, sees⟩ := reads.leavesName named fun isName => absurd isName noNameForm
    exact ⟨name, group, _, sees⟩
  · rintro ⟨name, group, rest, sees⟩
    exact (reads.type_of_seesVariable leads ⟨name, group, sees⟩).1

/-- The second parameter is the first one in parentheses: its group is what was refused. -/
theorem unexpectedNode_eq_iff_of_repeated :
    let p := ofTokens (lex "def f(a, (a))\nend").tokens .empty .empty
    (p.perform .empty .program).result
        = .error (.internal (.unexpectedNode .identifier .identifier ⟨1, 11⟩)) ∧
      ∃ parameter ∈ p.callsOf .empty .program, ∃ name group rest,
        parameter.parser.cursor.upcoming = group ++ rest ∧ Grouped name group ∧
        name.kind = .identifier ∧ name.literal ∈ parameter.parser.scope := by
  have failed : ((ofTokens (lex "def f(a, (a))\nend").tokens .empty .empty).perform .empty
      .program).result = .error (.internal (.unexpectedNode .identifier .identifier ⟨1, 11⟩)) := by
    cbv
  obtain ⟨-, parameter, mem, -, -, -, -, -, -, -, -, -, inGroup⟩ :=
    @unexpectedNode_eq_iff (lex "def f(a, (a))\nend").tokens .empty .empty [] .program .empty _ _ _
      failed
  exact ⟨failed, parameter, mem, inGroup.mp rfl⟩

/-- So an internal error may have found what it expected. -/
theorem unexpectedNode_contradicts :
    ¬ ∀ tokens scope symbols steps step caller expected found position,
      (((ofTokens tokens scope symbols).after steps).perform caller step).result
        = .error (.internal (.unexpectedNode expected found position)) → found ≠ expected := by
  intro differs
  exact differs (lex "def f(a, (a))\nend").tokens .empty .empty [] .program .empty .identifier
    .identifier ⟨1, 11⟩ (by cbv) rfl

end Parser

end RubyReader
