/-
# `Handlers` — what the limit on nesting bounds

The limit is on expressions.  Between two of them at most two more handlers are open,
so what is open is bounded by the limit, but for one way inwards that opens none: a
parameter that is no name is read as what it starts like, and `def` is such a start.
Of open parameters there can be any number, and that is all that can be:

    openHandlers_le          the limit and the open parameters bound what is open
    openHandlers_unbounded   the limit alone does not

The way inwards is followed by the first phrase that each routine asks for.
-/
import RubyReader.Proofs.Grammar.Climbing
import RubyReader.Proofs.Reading.Calls
import RubyReader.Proofs.Reading.Program

namespace RubyReader

/-! ## The bound -/

/-- The open handlers are paid for, three by each expression and two by each parameter,
and so are those that the innermost goal has in reserve. -/
def Paid : List Goal → Prop
  | [] => True
  | goal :: around =>
    (goal :: around).countP Goal.isHandler + goal.reserve
      ≤ 3 * (goal :: around).countP Goal.isExpression + 2 * (goal :: around).countP Goal.isParameter

/-- What a goal asks for is paid from its reserve, or pays for itself. -/
theorem Paid.inner {outer inner : Goal} {around : List Goal} (paid : Paid (outer :: around))
    (admits : outer.Admits inner) : Paid (inner :: outer :: around) := by
  rw [Paid] at paid ⊢
  rw [List.countP_cons (a := inner), List.countP_cons (a := inner), List.countP_cons (a := inner)]
  cases inner with
  | expression min =>
      show _ + 1 + 2 ≤ 3 * (_ + 1) + 2 * (_ + 0)
      omega
  | parameter =>
      show _ + 1 + 1 ≤ 3 * (_ + 0) + 2 * (_ + 1)
      omega
  | leading form =>
      have fewer : (Goal.leading form).reserve < outer.reserve := admits
      show _ + 1 + _ ≤ 3 * (_ + 0) + 2 * (_ + 0)
      omega
  | following form left =>
      have fewer : (Goal.following form left).reserve < outer.reserve := admits
      show _ + 1 + _ ≤ 3 * (_ + 0) + 2 * (_ + 0)
      omega
  | _ =>
      have fewer := admits
      simp only [Goal.Admits] at fewer
      show _ + 0 + _ ≤ 3 * (_ + 0) + 2 * (_ + 0)
      omega

/-- With a limit on expressions, what is open can only grow with the parameters. -/
theorem Parser.openHandlers_le_of_mem {most : Nat} {goal : Goal} {p : Parser} (start : p.depth = 0)
    (paid : Paid [goal]) {call : Call} (mem : call ∈ p.calls (some most) goal) :
    call.openHandlers ≤ 3 * (most + 1) + 2 * call.openParameters := by
  have paid : Paid call.stack :=
    calls_induction (motive := fun stack _ => Paid stack)
      (fun _ _ _ _ _ paid admits _ _ => paid.inner admits) paid call mem
  have few : call.openExpressions ≤ most + 1 := by
    have depth := depth_of_mem mem
    have le := depth_le_of_mem (by omega) mem
    rw [Call.openExpressions, Call.stack, List.countP_cons]
    split <;> omega
  have all : call.openHandlers + call.goal.reserve
      ≤ 3 * call.openExpressions + 2 * call.openParameters := paid
  omega

/-! ## The first phrase inside a phrase -/

/-- The phrase that a routine asks for first, and the parser that it is read from. -/
def Routine.first? {α : Type} : Routine α → Parser → Option (Goal × Parser)
  | .done _, _ | .fail _, _ => none
  | .current go, p => (go p.token).first? p
  | .next go, p => (go p.cursor.next).first? p
  | .previous go, p => (go p.cursor.previous?).first? p
  | .advance go, p => go.first? p.advance
  | .skipLines go, p => go.first? p.skipLines
  | .isLocal name go, p => (go (p.scope.contains name)).first? p
  | .declare name go, p => (go (!p.scope.contains name)).first? (p.declare name)
  | .intern name go, p => go.first? (p.intern name)
  | .read goal _, p => some (goal, p)

/-- The first phrase inside a phrase, which is one that there is room for. -/
def Goal.first? (limit : Option Nat) (p : Parser) : Goal → Option (Goal × Parser)
  | .expression min =>
    if p.isFull limit then none else (Goal.expression min).routine.first? p.opened
  | .method => Goal.method.routine.first? (p.withScope .empty)
  | goal => goal.routine.first? p

theorem Routine.of_first? {α : Type} {inner : Goal} {q : Parser}
    (nested : (goal : Goal) → Parser → Option (Outcome goal.Result))
    (inside : Goal → Parser → List Call) {r : Routine α} {p : Parser}
    (first : r.first? p = some (inner, q)) :
    inside inner q ⊆ r.calls nested inside p ∧ (r.run nested p ≠ none → nested inner q ≠ none) := by
  induction r generalizing p with
  | done => cases first
  | fail => cases first
  | current go ih => exact ih _ first
  | next go ih => exact ih _ first
  | previous go ih => exact ih _ first
  | advance go ih => exact @ih p.advance first
  | skipLines go ih => exact @ih p.skipLines first
  | isLocal name go ih => exact ih _ first
  | declare name go ih => exact @ih _ (p.declare name) first
  | intern name go ih => exact @ih (p.intern name) first
  | read goal go ih =>
      obtain ⟨rfl, rfl⟩ := Prod.mk.inj (Option.some.inj first)
      refine ⟨?_, fun some none => some ?_⟩
      · rw [calls]
        exact List.subset_append_left _ _
      · rw [run, none]

namespace Routine

variable {α β : Type} {p : Parser}

/-- What a routine asks for first it asks for first whatever follows. -/
theorem first?_bind {r : Routine α} {first : Goal × Parser} (found : r.first? p = some first)
    (go : α → Routine β) : (r >>= go).first? p = some first := by
  show (r.bind go).first? p = some first
  induction r generalizing p with
  | done => cases found
  | fail => cases found
  | current next ih => exact ih _ found
  | next next ih => exact ih _ found
  | previous next ih => exact ih _ found
  | advance next ih => exact @ih p.advance found
  | skipLines next ih => exact @ih p.skipLines found
  | isLocal name next ih => exact ih _ found
  | declare name next ih => exact @ih _ (p.declare name) found
  | intern name next ih => exact @ih (p.intern name) found
  | read goal next ih => exact found

theorem first?_currentToken (go : Token → Routine β) :
    (currentToken >>= go).first? p = (go p.token).first? p := rfl

theorem first?_skipLineEnds (go : Unit → Routine β) :
    (skipLineEnds >>= go).first? p = (go ()).first? p.skipLines := rfl

theorem first?_phrase (goal : Goal) (go : goal.Result → Routine β) :
    (phrase goal >>= go).first? p = some (goal, p) := rfl

theorem first?_expect {kind : TokenKind} {within : Construct} (go : Token → Routine β)
    (same : p.token.kind = kind) :
    (expect kind within >>= go).first? p = (go p.token).first? p.advance := by
  show ((if p.token.kind = kind then take else unexpected _).bind go).first? p = _
  rw [if_pos same]
  rfl

theorem first?_eat {kind : TokenKind} (go : Bool → Routine β) (other : p.token.kind ≠ kind) :
    (eat kind >>= go).first? p = (go false).first? p := by
  show (Routine.bind (if p.token.kind = kind then _ else _) go).first? p = _
  rw [if_neg other]
  rfl

end Routine

namespace Parser

variable {limit : Option Nat} {p : Parser}

/-- The calls of the first phrase inside a phrase are among its own; and it has an
outcome if the phrase has one. -/
theorem exists_of_first? {fuel : Nat} (around : List Goal) {goal inner : Goal} {q : Parser}
    (first : goal.first? limit p = some (inner, q)) (finished : attempt limit fuel goal p ≠ none) :
    ∃ fewer, attempt limit fewer inner q ≠ none ∧
      callsWithin limit fewer (goal :: around) inner q ⊆ callsWithin limit fuel around goal p := by
  cases fuel with
  | zero => exact absurd rfl finished
  | succ fuel =>
      have inside {p' : Parser} (first' : goal.routine.first? p' = some (inner, q))
          (finished' : goal.routine.run (attempt limit fuel) p' ≠ none) :
          attempt limit fuel inner q ≠ none ∧
            ∀ own, callsWithin limit fuel (goal :: around) inner q ⊆ own ::
              goal.routine.calls (attempt limit fuel)
                (callsWithin limit fuel (goal :: around)) p' := by
        obtain ⟨subset, finishes⟩ := Routine.of_first? (attempt limit fuel)
          (callsWithin limit fuel (goal :: around)) first'
        exact ⟨finishes finished', fun own => List.subset_cons_of_subset own subset⟩
      refine ⟨fuel, ?_⟩
      rw [callsWithin]
      rw [attempt] at finished
      cases goal with
      | expression min =>
          by_cases full : p.isFull limit = true
          · simp [Goal.first?, full] at first
          · rw [Goal.first?, if_neg full] at first
            rw [Goal.around, if_neg full, Ne, Option.map_eq_none_iff] at finished
            rw [Goal.callsAround, if_neg full]
            exact (inside first finished).imp_right fun subset => subset _
      | method =>
          rw [Goal.around, Ne, Option.map_eq_none_iff] at finished
          exact (inside first finished).imp_right fun subset => subset _
      | _ => exact (inside first finished).imp_right fun subset => subset _

theorem first?_statements {terminator : TokenKind} (inside : p.skipLines.token.kind ≠ terminator)
    (more : p.skipLines.token.kind ≠ .eof) :
    (Goal.statements terminator).first? limit p = some (.expression .lowest, p.skipLines) := by
  show (Grammar.statements terminator).first? p = _
  rw [Grammar.statements, Routine.first?_skipLineEnds, Routine.first?_currentToken,
    if_neg (by simp [inside, more])]
  rfl

theorem first?_expression {min : Precedence} (form : LeadingForm) (room : p.isFull limit = false)
    (leads : p.skipLines.token.kind.leading? = some form) :
    (Goal.expression min).first? limit p = some (.leading form, p.opened.skipLines) := by
  rw [Goal.first?, if_neg (by simp [room])]
  show (Grammar.expressionFrom min).first? p.opened = _
  rw [Grammar.expressionFrom, Routine.first?_skipLineEnds, Routine.first?_currentToken]
  have leads' : p.opened.skipLines.token.kind.leading? = some form := leads
  rw [leads']
  rfl

theorem first?_definition (def' : p.token.kind = .kwDef)
    (named : p.advance.token.kind = .identifier) :
    (Goal.leading .definition).first? limit p = some (.method, p.advance.advance) := by
  show Grammar.definition.first? p = _
  rw [Grammar.definition, Routine.first?_expect _ def', Routine.first?_expect _ named,
    Routine.first?_phrase]

theorem first?_method (opening : p.token.kind = .lparen)
    (list : p.advance.skipLines.token.kind ≠ .rparen) :
    Goal.method.first? limit p = some (.parameters, (p.withScope .empty).advance.skipLines) := by
  have params : Grammar.parameterList.first? (p.withScope .empty)
      = some (.parameters, (p.withScope .empty).advance.skipLines) := by
    rw [Grammar.parameterList, Routine.first?_currentToken, token_withScope, opening]
    show Grammar.parenthesizedParameters.first? _ = _
    rw [Grammar.parenthesizedParameters, Routine.first?_expect _ (by exact opening),
      Routine.first?_skipLineEnds, Routine.first?_eat _ (by exact list)]
    rfl
  exact Routine.first?_bind params _

theorem first?_parameters : Goal.parameters.first? limit p = some (.parameter, p) := rfl

theorem first?_parameter (form : LeadingForm) (other : p.token.kind ≠ .identifier)
    (leads : p.token.kind.leading? = some form) :
    Goal.parameter.first? limit p = some (.leading form, p) := by
  show Grammar.parameter.first? p = _
  rw [Grammar.parameter, Routine.first?_currentToken, if_neg other, leads]
  rfl

end Parser

/-! ## Definitions inside parameters -/

/-- Definitions whose first parameter is the next of them. -/
def definitionsInside : Nat → List Token
  | 0 => []
  | count + 1 =>
    .new .kwDef "def" .start :: .new .identifier "f" .start :: .new .lparen "(" .start ::
      definitionsInside count

/-- Each of the definitions is read inside the ones before it, and opens no expression. -/
theorem Parser.exists_mem_callsWithin {limit : Option Nat} {count fuel : Nat} (around : List Goal)
    {p : Parser} {last : Token} {scope : Names} {depth : Nat}
    (stands : p.Stands (definitionsInside (count + 1) ++ [last]) scope depth)
    (finished : attempt limit fuel (.leading .definition) p ≠ none) :
    ∃ call ∈ callsWithin limit fuel around (.leading .definition) p,
      count + around.countP Goal.isHandler < call.openHandlers := by
  induction count generalizing fuel around p scope with
  | zero =>
      cases fuel with
      | zero => exact absurd rfl finished
      | succ fuel =>
          refine ⟨_, .head _, ?_⟩
          show 0 + around.countP _ < (Goal.leading .definition :: around).countP _
          rw [List.countP_cons_of_pos rfl]
          omega
  | succ count ih =>
      have name := stands.advance (by decide)
      have opening := name.advance (by decide)
      have list := opening.advance (by decide)
      have inner : p.advance.advance.advance.token.kind = .kwDef := by rw [list.token_eq]; rfl
      have lines : p.advance.advance.advance.skipLines = p.advance.advance.advance :=
        skipLines_of_ne (by simp [inner])
      have entered : ((p.advance.advance.withScope .empty).advance.skipLines).Stands
          (definitionsInside (count + 1) ++ [last]) .empty depth :=
        ⟨(congrArg (fun q => q.cursor.upcoming) lines).trans list.upcoming, rfl, list.depth_eq⟩
      -- from the definition to its list, to its first parameter, to the definition there
      obtain ⟨fuel₁, finished₁, subset₁⟩ := exists_of_first? around
        (first?_definition (by rw [stands.token_eq]; rfl) (by rw [name.token_eq]; rfl)) finished
      obtain ⟨fuel₂, finished₂, subset₂⟩ := exists_of_first? (.leading .definition :: around)
        (first?_method (by rw [opening.token_eq]; rfl) (by simp [lines, inner])) finished₁
      obtain ⟨fuel₃, finished₃, subset₃⟩ := exists_of_first?
        (.method :: .leading .definition :: around) first?_parameters finished₂
      obtain ⟨fuel₄, finished₄, subset₄⟩ := exists_of_first?
        (.parameters :: .method :: .leading .definition :: around)
        (first?_parameter .definition (by rw [entered.token_eq]; decide)
          (by rw [entered.token_eq]; rfl)) finished₃
      obtain ⟨call, mem, more⟩ := ih _ entered finished₄
      refine ⟨call, subset₁ (subset₂ (subset₃ (subset₄ mem))), ?_⟩
      simp only [List.countP_cons, Goal.isHandler, Bool.false_eq_true, ↓reduceIte] at more
      omega

/-- In such a program more handlers are open at once than it has definitions but one. -/
theorem exists_call_definitionsInside (count : Nat) :
    ∃ call ∈ (Parser.ofTokens (definitionsInside (count + 1) ++ [.endOfInput .start]) .empty
        .empty).calls (some nestingLimit) (.statements .eof), count < call.openHandlers := by
  let tokens := definitionsInside (count + 1) ++ [.endOfInput .start]
  let p := Parser.ofTokens tokens .empty .empty
  have stands : p.Stands tokens .empty 0 := ⟨Cursor.upcoming_ofTokens rfl, rfl, rfl⟩
  have same : p.skipLines = p := stands.lines (by decide)
  have entered : p.skipLines.opened.skipLines.Stands tokens .empty 1 := by
    rw [same, stands.opened.lines (by decide)]
    exact stands.opened
  have more : p.skipLines.token.kind ≠ .eof := by
    rw [same, stands.token_eq]
    decide
  have finished : Parser.attempt (some nestingLimit) ((Goal.statements .eof).cost p.cursor + 1)
      (.statements .eof) p ≠ none := by
    rw [Parser.attempt_eq_read]
    exact Option.some_ne_none _
  obtain ⟨fuel₁, finished₁, subset₁⟩ := Parser.exists_of_first? []
    (Parser.first?_statements more more) finished
  obtain ⟨fuel₂, finished₂, subset₂⟩ := Parser.exists_of_first? [.statements .eof]
    (Parser.first?_expression .definition rfl (by rw [same, same, stands.token_eq]; rfl)) finished₁
  obtain ⟨call, mem, many⟩ := Parser.exists_mem_callsWithin
    [.expression .lowest, .statements .eof] entered finished₂
  exact ⟨call, subset₁ (subset₂ mem), by omega⟩

/-- The handlers that are open while a program is read are bounded by the limit and
the parameters that are open. -/
theorem openHandlers_le {tokens : List Token} {scope symbols : Names} {call : Call}
    (mem : call ∈
      (Parser.ofTokens tokens scope symbols).calls (some nestingLimit) (.statements .eof)) :
    call.openHandlers ≤ 3 * (nestingLimit + 1) + 2 * call.openParameters :=
  Parser.openHandlers_le_of_mem rfl (show Paid [.statements .eof] from Nat.le_refl 0) mem

/-- Of three hundred definitions each inside the parameters of the one before. -/
theorem openHandlers_le_of_definitions :
    ∃ call ∈ (Parser.ofTokens (definitionsInside 300 ++ [.endOfInput .start]) .empty
        .empty).calls (some nestingLimit) (.statements .eof),
      299 < call.openHandlers ∧
        call.openHandlers ≤ 3 * (nestingLimit + 1) + 2 * call.openParameters := by
  obtain ⟨call, mem, many⟩ := exists_call_definitionsInside 299
  exact ⟨call, mem, many, openHandlers_le mem⟩

/-- The limit alone bounds the open handlers by no number. -/
theorem openHandlers_unbounded :
    ¬ ∃ most, ∀ tokens scope symbols, ∀ call ∈
      (Parser.ofTokens tokens scope symbols).calls (some nestingLimit) (.statements .eof),
        call.openHandlers ≤ most := by
  rintro ⟨most, bounded⟩
  obtain ⟨call, mem, more⟩ := exists_call_definitionsInside most
  exact absurd (bounded _ _ _ call mem) (Nat.not_le.mpr more)

end RubyReader
