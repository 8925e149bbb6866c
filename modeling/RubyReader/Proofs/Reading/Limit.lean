/-
# `Limit` — what the limit on nesting changes

With a limit the reader takes the same way as without one, until an expression
would be open too many.  It then fails, and says why; so an outcome is the one
without a limit, or the refusal.
-/
import RubyReader.Parser.Steps
import RubyReader.Parser.Unfold

namespace RubyReader

variable {α : Type}

/-- An outcome that blames a token for being nested too deeply. -/
def Refused (outcome : Outcome α) : Prop :=
  ∃ token : Token, outcome.1 = .error (.malformed (.blame .nestedTooDeeply token))

/-- A routine keeps its outcome under a reader that keeps all outcomes but refusals,
unless it is refused itself. -/
theorem Routine.run_limited
    {nested nested' : (goal : Goal) → Parser → Option (Outcome goal.Result)}
    (h : ∀ goal p outcome, nested goal p = some outcome →
      nested' goal p = some outcome ∨ Refused outcome)
    {r : Routine α} {p : Parser} {outcome : Outcome α} (eq : r.run nested p = some outcome) :
    r.run nested' p = some outcome ∨ Refused outcome := by
  induction r generalizing p with
  | done => exact .inl eq
  | fail => exact .inl eq
  | current go ih => exact ih _ eq
  | next go ih => exact ih _ eq
  | previous go ih => exact ih _ eq
  | advance go ih => exact @ih { p with cursor := p.cursor.advance } eq
  | skipLines go ih => exact @ih { p with cursor := p.cursor.skipLines } eq
  | isLocal name go ih => exact ih _ eq
  | declare name go ih => exact @ih _ { p with scope := p.scope.insert name } eq
  | intern name go ih => exact @ih { p with symbols := p.symbols.insert name } eq
  | read goal go ih =>
      rw [run] at eq ⊢
      cases found : nested goal p with
      | none => simp [found] at eq
      | some inner =>
          obtain ⟨result, q⟩ := inner
          rw [found] at eq
          rcases h goal p _ found with same | ⟨token, refused⟩
          · rw [same]
            cases result with
            | error e => exact .inl eq
            | ok a => exact ih a eq
          · cases refused
            obtain rfl := Option.some.inj eq
            exact .inr ⟨token, rfl⟩

theorem Goal.around_limited {limit : Option Nat} {goal : Goal}
    {body body' : Parser → Option (Outcome goal.Result)}
    (h : ∀ p outcome, body p = some outcome → body' p = some outcome ∨ Refused outcome)
    {p : Parser} {outcome : Outcome goal.Result} (eq : goal.around limit body p = some outcome) :
    goal.around none body' p = some outcome ∨ Refused outcome := by
  cases goal with
  | expression min =>
      by_cases full : p.isFull limit = true
      · simp only [around, full, ↓reduceIte] at eq
        obtain rfl := Option.some.inj eq
        exact .inr ⟨p.cursor.current, rfl⟩
      · simp only [around, full, Bool.false_eq_true, ↓reduceIte, Option.map_eq_some_iff] at eq
        obtain ⟨found, read, rfl⟩ := eq
        rcases h _ _ read with same | refused
        · exact .inl (by simp [around, Parser.isFull, same])
        · exact .inr refused
  | method =>
      simp only [around, Option.map_eq_some_iff] at eq
      obtain ⟨found, read, rfl⟩ := eq
      rcases h _ _ read with same | refused
      · exact .inl (by simp [around, same])
      · exact .inr refused
  | _ => exact h p outcome eq

namespace Parser

theorem attempt_limited {limit : Option Nat} {fuel : Nat} {goal : Goal} {p : Parser}
    {outcome : Outcome goal.Result} (eq : attempt limit fuel goal p = some outcome) :
    attempt none fuel goal p = some outcome ∨ Refused outcome := by
  induction fuel generalizing goal p with
  | zero => cases eq
  | succ fuel ih =>
      exact Goal.around_limited (fun _ _ => Routine.run_limited fun _ _ _ => ih) eq

/-- What is read within a limit is what is read without one, or refused. -/
theorem read_limited (limit : Option Nat) (goal : Goal) (p : Parser) :
    p.read none goal = p.read limit goal ∨ Refused (p.read limit goal) := by
  rcases attempt_limited (attempt_eq_read limit goal p) with same | refused
  · exact .inl (eq_read_of_attempt same).symm
  · exact .inr refused

/-- A program is refused with its statements. -/
theorem refused_program {p : Parser}
    (h : Refused (p.read (some nestingLimit) (.statements .eof))) : Refused p.program := by
  obtain ⟨token, refused⟩ := h
  refine ⟨token, ?_⟩
  rw [program, programWithin]
  split
  · rename_i statements q read
    rw [read] at refused
    cases refused
  · rename_i error q read
    rw [read] at refused
    cases refused
    rfl

end Parser

end RubyReader
