/-
# `Steps` — any number of steps on one parser

Each step reads a phrase, a program its statements and an expression itself, from the
parser that the step before left, and the outcome is that of the phrase (`perform_eq`).  So what
holds of every phrase that is read holds of every step, after any steps before it, whether
these failed or not, and whatever scopes their callers brought along:

    one step        the cursor moves onward, and as many expressions are open as before
    all steps       the moments are on one way (`history_passage`), from parsers that agree
                    the outcomes are the same (`after_agree`)
-/
import RubyReader.Parser.Steps
import RubyReader.Proofs.Reading.Agreement
import RubyReader.Proofs.Reading.Calls
import RubyReader.Proofs.Reading.Program

namespace RubyReader.Parser

/-! ## The phrase of a step

A program is read in the scope of the parser, an expression in that of the caller, which
gets it back.  Apart from that a step is its phrase, and has the moments and the calls of
that. -/

def Step.goal : Step → Goal
  | .program => .statements .eof
  | .expression min => .expression min

/-- The parser that the phrase of a step is read from: an expression is read in the scope
that its caller brings along. -/
def ready (caller : Names) (p : Parser) : Step → Parser
  | .program => p
  | .expression _ => p.withScope caller

def Step.outcome (caller : Names) (p : Parser) : (step : Step) → Outcome step.goal.Result →
    StepOutcome
  | .program, (.ok statements, q) => ⟨.ok (.block statements p.token.position), caller, q⟩
  | .program, (.error error, q) => ⟨.error error, caller, q⟩
  | .expression _, (result, q) => ⟨result, q.scope, q.withScope p.scope⟩

section

variable {caller : Names} {p q : Parser} {step : Step}

theorem perform_eq :
    p.perform caller step
      = step.outcome caller p ((p.ready caller step).read (some nestingLimit) step.goal) := by
  cases step with
  | program =>
      rw [perform, program, programWithin]
      show _ = Step.outcome caller p .program (p.read (some nestingLimit) (.statements .eof))
      rcases p.read (some nestingLimit) (.statements .eof) with ⟨_ | _, q⟩ <;> rfl
  | expression min => rfl

theorem Step.starts (step : Step) (c : Cursor) : step.goal.Starts c := by
  cases step <;> trivial

@[simp] theorem cursor_ready : (p.ready caller step).cursor = p.cursor := by cases step <;> rfl

@[simp] theorem depth_ready : (p.ready caller step).depth = p.depth := by cases step <;> rfl

@[simp] theorem cursor_outcome {found : Outcome step.goal.Result} :
    (step.outcome caller p found).parser.cursor = found.2.cursor := by
  cases step with
  | program => rcases found with ⟨_ | _, q⟩ <;> rfl
  | expression min => rfl

@[simp] theorem depth_outcome {found : Outcome step.goal.Result} :
    (step.outcome caller p found).parser.depth = found.2.depth := by
  cases step with
  | program => rcases found with ⟨_ | _, q⟩ <;> rfl
  | expression min => rfl

/-- A step fails only because its phrase does. -/
theorem Step.error_of_outcome {found : Outcome step.goal.Result} {e : ParseError}
    (failed : (step.outcome caller p found).result = .error e) : ∃ q, found = (.error e, q) := by
  cases step with
  | program =>
      rcases found with ⟨_ | _, q⟩ <;> cases failed
      exact ⟨q, rfl⟩
  | expression min => exact ⟨_, Prod.ext failed rfl⟩

theorem error_of_perform {e : ParseError} (failed : (p.perform caller step).result = .error e) :
    ∃ q, (p.ready caller step).read (some nestingLimit) step.goal = (.error e, q) := by
  rw [perform_eq] at failed
  exact Step.error_of_outcome failed

def momentsOf (caller : Names) (p : Parser) (step : Step) : List Parser :=
  (p.ready caller step).moments (some nestingLimit) step.goal

def callsOf (caller : Names) (p : Parser) (step : Step) : List Call :=
  (p.ready caller step).calls (some nestingLimit) step.goal

theorem perform_journey (caller : Names) (p : Parser) (step : Step) :
    Journey (some nestingLimit) (p.ready caller step) (p.momentsOf caller step)
      ((p.ready caller step).read (some nestingLimit) step.goal).2 :=
  read_journey _ (step.starts _)

theorem perform_onward (caller : Names) (p : Parser) (step : Step) :
    p.cursor.Onward (p.perform caller step).parser.cursor := by
  rw [perform_eq, cursor_outcome]
  have onward := (perform_journey caller p step).passage.onward
  rwa [cursor_ready] at onward

theorem depth_perform (caller : Names) (p : Parser) (step : Step) :
    (p.perform caller step).parser.depth = p.depth := by
  rw [perform_eq, depth_outcome, (perform_journey caller p step).depth_eq, depth_ready]

end

/-! ## After some steps -/

/-- The parser after some steps, each with the scope that its caller brings along. -/
def after (p : Parser) : List (Step × Names) → Parser
  | [] => p
  | (step, caller) :: rest => (p.perform caller step).parser.after rest

/-- All moments of some steps, those between the steps among them. -/
def history (p : Parser) : List (Step × Names) → List Parser
  | [] => [p]
  | (step, caller) :: rest =>
    p :: (p.momentsOf caller step ++ (p.perform caller step).parser.history rest)

variable {p : Parser}

theorem after_concat (steps : List (Step × Names)) (step : Step) (caller : Names) :
    p.after (steps ++ [(step, caller)]) = ((p.after steps).perform caller step).parser := by
  induction steps generalizing p with
  | nil => rfl
  | cons first rest ih => exact ih

/-- Steps that thread one scope through are steps with scopes of their own. -/
theorem exists_of_mem_performAll {scope : Names} {steps : List Step} {outcome : StepOutcome}
    (mem : outcome ∈ p.performAll scope steps) :
    ∃ before caller step, outcome = (p.after before).perform caller step := by
  induction steps generalizing p scope with
  | nil => cases mem
  | cons step rest ih =>
      rcases List.mem_cons.mp mem with rfl | mem
      · exact ⟨[], scope, step, rfl⟩
      · obtain ⟨before, caller, next, e⟩ := ih mem
        exact ⟨(step, scope) :: before, caller, next, e⟩

/-- All moments of some steps are on one way. -/
theorem history_passage (p : Parser) (steps : List (Step × Names)) :
    Passage p.cursor (p.history steps) (p.after steps).cursor := by
  induction steps generalizing p with
  | nil => exact .cons (.refl _) (.done (.refl _))
  | cons first rest ih =>
      obtain ⟨step, caller⟩ := first
      have moments := (perform_journey caller p step).passage
      rw [cursor_ready, ← cursor_outcome, ← perform_eq] at moments
      exact .cons (.refl _) (moments.append (ih _))

theorem after_onward (p : Parser) (steps : List (Step × Names)) :
    p.cursor.Onward (p.after steps).cursor := (history_passage p steps).onward

/-- Between steps as many expressions are open as there were at the beginning. -/
theorem depth_after (p : Parser) (steps : List (Step × Names)) :
    (p.after steps).depth = p.depth := by
  induction steps generalizing p with
  | nil => rfl
  | cons first rest ih => exact (ih _).trans (depth_perform ..)

/-- At no moment are more expressions open than may be. -/
theorem history_allowed {steps : List (Step × Names)} (start : p.depth ≤ nestingLimit) {m : Parser}
    (mem : m ∈ p.history steps) : m.depth ≤ nestingLimit := by
  induction steps generalizing p with
  | nil => rwa [List.mem_singleton.mp mem]
  | cons first rest ih =>
      obtain ⟨step, caller⟩ := first
      rcases List.mem_cons.mp mem with rfl | mem
      · exact start
      · rcases List.mem_append.mp mem with mem | mem
        · refine (perform_journey caller p step).allowed ?_ m mem nestingLimit rfl
          intro most same
          obtain rfl := Option.mem_some.mp same
          rwa [depth_ready]
        · exact ih (by rwa [depth_perform]) mem

theorem token_mem_of_onward {tokens : List Token} {q : Parser}
    (onward : (Cursor.ofTokens tokens).Onward q.cursor) (noEnd : q.token.kind ≠ .eof) :
    q.token ∈ tokens := by
  obtain ⟨ending, given, ends⟩ := Cursor.exists_tokens_ofTokens tokens
  have among : q.token ∈ tokens ++ ending := by
    rw [← given, ← onward.tokens_eq]
    exact List.mem_of_getElem? q.cursor.getElem?_index
  refine (List.mem_append.mp among).resolve_right ?_
  intro mem
  exact noEnd (ends _ mem)

/-! ## Steps from parsers that agree -/

section

variable {last : Nat} {caller : Names} {p' : Parser}

/-- Parsers at the beginning of tokens that are the same up to an index agree up to it. -/
theorem agree_ofTokens {tokens tokens' : List Token} (scope symbols : Names)
    (same : (Cursor.ofTokens tokens').tokens.take (last + 1)
      = (Cursor.ofTokens tokens).tokens.take (last + 1)) :
    (ofTokens tokens scope symbols).Agree last (ofTokens tokens' scope symbols) := by
  refine ⟨⟨?_, same⟩, rfl, rfl, rfl⟩
  show (Cursor.ofTokens tokens').before.length = (Cursor.ofTokens tokens).before.length
  rw [Cursor.before_ofTokens, Cursor.before_ofTokens]

theorem Agree.ready (agree : p.Agree last p') (caller : Names) (step : Step) :
    (p.ready caller step).Agree last (p'.ready caller step) := by
  cases step with
  | program => exact agree
  | expression min => exact ⟨agree.cursor, rfl, agree.symbols_eq, agree.depth_eq⟩

theorem Step.agree_outcome {step : Step} {result : Except ParseError step.goal.Result}
    {q q' : Parser} (agree : p.Agree last p') (le : p.cursor.index ≤ last)
    (behind : q.Agree last q') :
    let found := step.outcome caller p (result, q)
    let found' := step.outcome caller p' (result, q')
    found'.result = found.result ∧ found'.scope = found.scope ∧
      found.parser.Agree last found'.parser := by
  cases step with
  | program =>
      cases result with
      | error e => exact ⟨rfl, rfl, behind⟩
      | ok statements =>
          have same : p'.token = p.token := agree.cursor.current_eq le
          refine ⟨?_, rfl, behind⟩
          show Except.ok (Node.block statements p'.token.position) = _
          rw [same]
          rfl
  | expression min =>
      exact ⟨rfl, behind.scope_eq,
        ⟨behind.cursor, agree.scope_eq, behind.symbols_eq, behind.depth_eq⟩⟩

/-- A step that does not get beyond an index has the same outcome from parsers that agree
up to it. -/
theorem perform_agree {step : Step} (agree : p.Agree last p')
    (le : (p.perform caller step).parser.cursor.index ≤ last) :
    (p'.perform caller step).result = (p.perform caller step).result ∧
      (p'.perform caller step).scope = (p.perform caller step).scope ∧
      (p.perform caller step).parser.Agree last (p'.perform caller step).parser := by
  have here := Nat.le_trans (perform_onward caller p step).index_le le
  rw [perform_eq, cursor_outcome] at le
  rw [perform_eq, perform_eq]
  obtain ⟨q', found, behind⟩ := read_agree (step.starts _) rfl le (agree.ready caller step)
  rw [found]
  exact Step.agree_outcome agree here behind

theorem after_agree {steps : List (Step × Names)} (agree : p.Agree last p')
    (le : (p.after steps).cursor.index ≤ last) :
    (p.after steps).Agree last (p'.after steps) := by
  induction steps generalizing p p' with
  | nil => exact agree
  | cons first rest ih =>
      obtain ⟨step, caller⟩ := first
      have between := Nat.le_trans (after_onward _ rest).index_le le
      exact ih (perform_agree agree between).2.2 le

end

end RubyReader.Parser
