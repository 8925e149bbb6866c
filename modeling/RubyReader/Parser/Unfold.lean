/-
# `Unfold` — reading a phrase, without fuel

More fuel never changes an outcome (`attempt_mono`), so the fuel that
`Parser.read` computes from the input can be forgotten: a phrase is read by
running its rule, with the phrases that the rule asks for read in the same
way (`read_eq`).
-/
import RubyReader.Parser.Termination

namespace RubyReader

/-- A routine keeps its outcome under a reader that has more outcomes. -/
theorem Routine.run_mono {α : Type}
    {nested nested' : (goal : Goal) → Parser → Option (Outcome goal.Result)}
    (h : ∀ goal p outcome, nested goal p = some outcome → nested' goal p = some outcome)
    {r : Routine α} {p : Parser} {outcome : Outcome α} (eq : r.run nested p = some outcome) :
    r.run nested' p = some outcome := by
  induction r generalizing p with
  | done => exact eq
  | fail => exact eq
  | current go ih => exact ih _ eq
  | next go ih => exact ih _ eq
  | previous go ih => exact ih _ eq
  | advance go ih => exact @ih { p with cursor := p.cursor.advance } eq
  | skipLines go ih => exact @ih { p with cursor := p.cursor.skipLines } eq
  | isLocal name go ih => exact ih _ eq
  | declare name go ih => exact @ih _ { p with scope := p.scope.insert name } eq
  | intern name go ih => exact @ih { p with symbols := p.symbols.insert name } eq
  | read goal go ih =>
    unfold run at eq ⊢
    cases read : nested goal p with
    | none => simp [read] at eq
    | some found =>
      obtain ⟨result, q⟩ := found
      rw [h goal p _ read]
      rw [read] at eq
      cases result with
      | error e => exact eq
      | ok a => exact ih a eq

theorem Goal.around_mono {limit : Option Nat} {goal : Goal}
    {body body' : Parser → Option (Outcome goal.Result)}
    (h : ∀ p outcome, body p = some outcome → body' p = some outcome)
    {p : Parser} {outcome : Outcome goal.Result} (eq : goal.around limit body p = some outcome) :
    goal.around limit body' p = some outcome := by
  cases goal with
  | expression min =>
    by_cases full : p.isFull limit = true
    · simpa [around, full] using eq
    · simp only [around, full, Bool.false_eq_true, ↓reduceIte, Option.map_eq_some_iff] at eq ⊢
      obtain ⟨found, read, closed⟩ := eq
      exact ⟨found, h _ _ read, closed⟩
  | method =>
    simp only [around, Option.map_eq_some_iff] at eq ⊢
    obtain ⟨found, read, restored⟩ := eq
    exact ⟨found, h _ _ read, restored⟩
  | _ => exact h p outcome eq

namespace Parser

/-- More fuel keeps an outcome. -/
theorem attempt_mono {limit : Option Nat} {fuel fuel' : Nat} (le : fuel ≤ fuel') {goal : Goal}
    {p : Parser} {outcome : Outcome goal.Result}
    (eq : attempt limit fuel goal p = some outcome) :
    attempt limit fuel' goal p = some outcome := by
  induction fuel generalizing fuel' goal p with
  | zero => cases eq
  | succ fuel ih =>
    cases fuel' with
    | zero => exact absurd le (Nat.not_succ_le_zero _)
    | succ fuel' =>
      have fewer := Nat.le_of_succ_le_succ le
      exact Goal.around_mono (fun _ _ => Routine.run_mono fun _ _ _ => ih fewer) eq

theorem attempt_eq_read (limit : Option Nat) (goal : Goal) (p : Parser) :
    attempt limit (goal.cost p.cursor + 1) goal p = some (p.read limit goal) := by
  simp [read]

/-- Whatever the fuel, an outcome is the one of `read`. -/
theorem eq_read_of_attempt {limit : Option Nat} {fuel : Nat} {goal : Goal} {p : Parser}
    {outcome : Outcome goal.Result} (eq : attempt limit fuel goal p = some outcome) :
    outcome = p.read limit goal := by
  have here := attempt_mono (Nat.le_max_left fuel (goal.cost p.cursor + 1)) eq
  have there := attempt_mono (Nat.le_max_right fuel (goal.cost p.cursor + 1))
    (attempt_eq_read limit goal p)
  exact Option.some.inj (here.symm.trans there)

/-- A phrase is read by its rule, and so are the phrases inside it. -/
theorem read_eq (limit : Option Nat) (goal : Goal) (p : Parser) :
    some (p.read limit goal)
      = goal.around limit (goal.routine.run fun inner q => some (q.read limit inner)) p := by
  have eq : goal.around limit (goal.routine.run (attempt limit (goal.cost p.cursor))) p
      = some (p.read limit goal) := attempt_eq_read limit goal p
  exact (Goal.around_mono (fun _ _ => Routine.run_mono fun _ _ _ found =>
    congrArg some (eq_read_of_attempt found).symm) eq).symm

end Parser
end RubyReader
