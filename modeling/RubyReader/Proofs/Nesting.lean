/-
# `Nesting` — the limit on nesting is a cut

With a limit, a run is the run without one up to the first call that opens an
expression too many.  There it ends, and blames the token at which it stands; a run
without such a call has the same outcome as without a limit, and no other run says
that expressions are nested too deeply (`program_capped`).
-/
import RubyReader.Proofs.Reading.Calls
import RubyReader.Proofs.Reading.Limit

namespace RubyReader

/-! ## Runs that are cut off

Below the limit an expression is opened and closed again, as without one.  At the limit it
is refused, and there the second run ends. -/

/-- The outcome that blames a token for being nested too deeply. -/
def refusal (token : Token) : ParseError := .malformed (.blame .nestedTooDeeply token)

/-- The first call that has more expressions open than there may be. -/
def firstBeyond (most : Nat) (calls : List Call) : Option Call :=
  calls.find? fun call => most < call.openExpressions

/-- Of two runs the second is the first, cut off where that opens an expression too
many. -/
def Capped {α : Type} (most : Nat) (calls : List Call) (free capped : Option (Outcome α)) :
    Prop :=
  match firstBeyond most calls with
  | none => capped = free
  | some call => ∃ q, capped = some (.error (refusal call.parser.token), q)

section

variable {α : Type} {most : Nat}

/-- At a call that does not open too many there is no cut. -/
theorem capped_cons {call : Call} {calls : List Call} {free capped : Option (Outcome α)}
    (le : call.openExpressions ≤ most) :
    Capped most (call :: calls) free capped ↔ Capped most calls free capped := by
  simp [Capped, firstBeyond, Nat.not_lt.mpr le]

theorem capped_here (call : Call) {calls : List Call} {free : Option (Outcome α)} {q : Parser}
    (gt : most < call.openExpressions) :
    Capped most (call :: calls) free (some (.error (refusal call.parser.token), q)) := by
  simp [Capped, firstBeyond, gt]

theorem Capped.map {calls : List Call} {free capped : Option (Outcome α)}
    (h : Capped most calls free capped) (restore : Parser → Parser) :
    Capped most calls (free.map fun (result, q) => (result, restore q))
      (capped.map fun (result, q) => (result, restore q)) := by
  unfold Capped at h ⊢
  split at h
  · rw [h]
  · obtain ⟨q, rfl⟩ := h
    exact ⟨restore q, rfl⟩

theorem Goal.around_open {min : Precedence}
    {body : Parser → Option (Outcome (Goal.expression min).Result)} {p : Parser}
    (room : ¬ most ≤ p.depth) :
    (Goal.expression min).around (some most) body p
      = (body p.opened).map fun (result, q) => (result, q.closed) := by
  simp [around, Parser.isFull, room]

theorem Goal.around_full {min : Precedence}
    {body : Parser → Option (Outcome (Goal.expression min).Result)} {p : Parser}
    (full : most ≤ p.depth) :
    (Goal.expression min).around (some most) body p = some (.error (refusal p.token), p) := by
  simp [around, Parser.isFull, full]
  rfl

/-- A routine is cut off where a phrase that it asks for is. -/
theorem Routine.run_capped {depth : Nat}
    {nested nested' : (goal : Goal) → Parser → Option (Outcome goal.Result)}
    {inside : Goal → Parser → List Call}
    (keeps : ∀ goal p a q, nested goal p = some (.ok a, q) → q.depth = p.depth)
    (h : ∀ goal p, p.depth = depth → Capped most (inside goal p) (nested goal p) (nested' goal p))
    {r : Routine α} {p : Parser} (same : p.depth = depth) :
    Capped most (r.calls nested inside p) (r.run nested p) (r.run nested' p) := by
  induction r generalizing p with
  | done => rfl
  | fail => rfl
  | current go ih => exact ih _ same
  | next go ih => exact ih _ same
  | previous go ih => exact ih _ same
  | advance go ih => exact @ih p.advance same
  | skipLines go ih => exact @ih p.skipLines same
  | isLocal name go ih => exact ih _ same
  | declare name go ih => exact @ih _ (p.declare name) same
  | intern name go ih => exact @ih (p.intern name) same
  | read goal go ih =>
      have inner := h goal p same
      rw [calls, run, run]
      unfold Capped at inner ⊢
      rw [firstBeyond, List.find?_append, ← firstBeyond]
      split at inner
      · rename_i none
        rw [none, Option.none_or, inner]
        cases found : nested goal p with
        | none => rfl
        | some outcome =>
            obtain ⟨result, q⟩ := outcome
            cases result with
            | error e => rfl
            | ok a => exact ih a ((keeps _ _ _ _ found).trans same)
      · rename_i call beyond
        obtain ⟨q, cut⟩ := inner
        rw [beyond, Option.some_or, cut]
        exact ⟨q, rfl⟩

end

namespace Parser

variable {most : Nat}

/-- A phrase is cut off at the first call that opens an expression too many. -/
theorem attempt_capped {fuel : Nat} {around : List Goal} {goal : Goal} {p : Parser}
    (depth : p.depth = around.countP Goal.isExpression) (le : p.depth ≤ most) :
    Capped most (callsWithin none fuel around goal p) (attempt none fuel goal p)
      (attempt (some most) fuel goal p) := by
  induction fuel generalizing around goal p with
  | zero => rfl
  | succ fuel ih =>
      have inside (p' : Parser) (depth' : p'.depth = (goal :: around).countP Goal.isExpression)
          (le' : p'.depth ≤ most) :
          Capped most (goal.routine.calls (attempt none fuel)
              (callsWithin none fuel (goal :: around)) p')
            (goal.routine.run (attempt none fuel) p')
            (goal.routine.run (attempt (some most) fuel) p') :=
        Routine.run_capped (fun _ _ _ _ => depth_of_attempt)
          (fun inner q same => ih (same.trans depth') (same ▸ le')) rfl
      have counted : Call.openExpressions ⟨goal, p, around⟩
          = p.depth + if goal.isExpression then 1 else 0 := by
        rw [depth]
        exact List.countP_cons
      rw [callsWithin, attempt, attempt]
      cases goal with
      | expression min =>
          have counted' : Call.openExpressions ⟨.expression min, p, around⟩ = p.depth + 1 := counted
          by_cases full : most ≤ p.depth
          · rw [Goal.around_full full]
            exact capped_here ⟨_, p, around⟩ (by omega)
          · rw [Goal.around_open full, capped_cons (by omega)]
            exact (inside p.opened counted'.symm (by simp; omega)).map closed
      | method =>
          rw [capped_cons (by rw [counted]; exact le)]
          exact (inside (p.withScope .empty) depth le).map fun q => q.withScope p.scope
      | _ =>
          rw [capped_cons (by rw [counted]; exact le)]
          exact inside p depth le

/-- From the outside in, a phrase is cut off at the first call that opens an
expression too many. -/
theorem read_capped (most : Nat) (goal : Goal) {p : Parser} (start : p.depth = 0) :
    match firstBeyond most (p.calls none goal) with
    | none => p.read (some most) goal = p.read none goal
    | some call => ∃ q, p.read (some most) goal = (.error (refusal call.parser.token), q) := by
  have capped : Capped most (callsWithin none (goal.cost p.cursor + 1) [] goal p)
      (attempt none (goal.cost p.cursor + 1) goal p)
      (attempt (some most) (goal.cost p.cursor + 1) goal p) :=
    attempt_capped start (by omega)
  rw [attempt_eq_read, attempt_eq_read, ← calls] at capped
  unfold Capped at capped
  split at capped
  · exact Option.some.inj capped
  · obtain ⟨q, cut⟩ := capped
    exact ⟨q, Option.some.inj cut⟩

end Parser

/-! ## Without a limit nothing is refused -/

/-- A routine that refuses nothing itself is refused only with a phrase inside it. -/
theorem Routine.not_refused {α : Type} {goals : Goal → Prop}
    {nested : (goal : Goal) → Parser → Option (Outcome goal.Result)}
    (free : ∀ goal p outcome, nested goal p = some outcome → ¬ Refused outcome)
    {r : Routine α} (only : r.Only goals) {p : Parser} {outcome : Outcome α}
    (eq : r.run nested p = some outcome) : ¬ Refused outcome := by
  induction r generalizing p with
  | done =>
      obtain rfl := Option.some.inj eq
      rintro ⟨token, refused⟩
      cases refused
  | fail error =>
      obtain rfl := Option.some.inj eq
      rintro ⟨token, refused⟩
      exact only ⟨token, Except.error.inj refused⟩
  | current go ih => exact ih _ (only _) eq
  | next go ih => exact ih _ (only _) eq
  | previous go ih => exact ih _ (only _) eq
  | advance go ih => exact @ih only p.advance eq
  | skipLines go ih => exact @ih only p.skipLines eq
  | isLocal name go ih => exact ih _ (only _) eq
  | declare name go ih => exact @ih _ (only _) (p.declare name) eq
  | intern name go ih => exact @ih only (p.intern name) eq
  | read goal go ih =>
      rw [run] at eq
      cases found : nested goal p with
      | none => simp [found] at eq
      | some inner =>
          obtain ⟨result, q⟩ := inner
          rw [found] at eq
          cases result with
          | error error =>
              obtain rfl := Option.some.inj eq
              rintro ⟨token, refused⟩
              exact free goal p _ found ⟨token, congrArg _ (Except.error.inj refused)⟩
          | ok a => exact ih a (only.2 a) eq

namespace Parser

theorem attempt_not_refused {fuel : Nat} {goal : Goal} {p : Parser}
    {outcome : Outcome goal.Result} (eq : attempt none fuel goal p = some outcome) :
    ¬ Refused outcome := by
  induction fuel generalizing goal p with
  | zero => cases eq
  | succ fuel ih =>
      have inside {q : Parser} {inner : Outcome goal.Result}
          (found : goal.routine.run (attempt none fuel) q = some inner) : ¬ Refused inner :=
        Routine.not_refused (fun _ _ _ => ih) goal.routine_only found
      rw [attempt] at eq
      cases goal with
      | expression min =>
          obtain ⟨inner, found, rfl⟩ := Option.map_eq_some_iff.mp eq
          rintro ⟨token, refused⟩
          exact inside found ⟨token, refused⟩
      | method =>
          obtain ⟨inner, found, rfl⟩ := Option.map_eq_some_iff.mp eq
          rintro ⟨token, refused⟩
          exact inside found ⟨token, refused⟩
      | _ => exact inside eq

/-- Without a limit no phrase is nested too deeply. -/
theorem read_not_refused (goal : Goal) (p : Parser) : ¬ Refused (p.read none goal) :=
  attempt_not_refused (attempt_eq_read none goal p)

/-- With the limit on nesting a program is read as without one, and then never said to
be nested too deeply, as long as no more expressions are open at once than may be.  At
the first call that opens one more it fails, and blames the token there. -/
theorem program_capped (tokens : List Token) (scope symbols : Names) :
    match firstBeyond nestingLimit
      ((ofTokens tokens scope symbols).calls none (.statements .eof)) with
    | none =>
      (ofTokens tokens scope symbols).program = (ofTokens tokens scope symbols).programWithin none
        ∧ ¬ Refused (ofTokens tokens scope symbols).program
    | some call =>
      (ofTokens tokens scope symbols).program.1 = .error (refusal call.parser.token) := by
  have capped := read_capped nestingLimit (.statements .eof)
    (show (ofTokens tokens scope symbols).depth = 0 from rfl)
  split
  · rename_i within
    rw [within] at capped
    have same : (ofTokens tokens scope symbols).program
        = (ofTokens tokens scope symbols).programWithin none := by
      rw [program, programWithin, capped, programWithin]
    refine ⟨same, ?_⟩
    rw [same]
    rintro ⟨token, refused⟩
    rw [programWithin] at refused
    split at refused
    · cases refused
    · rename_i error q read
      exact read_not_refused (.statements .eof) (ofTokens tokens scope symbols)
        ⟨token, by rw [read]; exact congrArg _ (Except.error.inj refused)⟩
  · rename_i call beyond
    rw [beyond] at capped
    obtain ⟨q, cut⟩ := capped
    rw [program, programWithin, cut]

end Parser

end RubyReader
