/-
# `Calls` — what a run asks for, and what is open then

While a phrase is read, phrases inside it are asked for, and phrases inside those.
A call is one of them: its goal, the parser that it starts from, and the goals that
are open around it, the innermost first.  `calls` lists the calls of a run in the
order in which they are made, so at the moment of a call its goal and the goals
around it are what is open.

The list follows the run: behind a phrase that was read the routine goes on with
what was read, and behind one that was not there are no more calls.  Two facts about
it carry everything else:

    calls_induction   what every step inwards keeps holds of all calls
    depth_of_mem      the counter of a parser counts the open expressions
-/
import RubyReader.Proofs.Reading.Invariants
import RubyReader.Proofs.Reading.Requests

namespace RubyReader

/-! ## Calls -/

namespace Goal

def isExpression : Goal → Bool
  | .expression _ => true
  | _ => false

def isParameter : Goal → Bool
  | .parameter => true
  | _ => false

/-- Whether a goal is read by a handler: an expression, one of its forms, or a
parameter.  The other goals are turns of a loop, and lists. -/
def isHandler : Goal → Bool
  | .expression _ | .leading _ | .following .. | .parameter => true
  | _ => false

end Goal

/-- A phrase that is asked for: its goal, the parser that it is read from, and the
goals that are open around it, the innermost first. -/
structure Call where
  goal : Goal
  parser : Parser
  around : List Goal

namespace Call

/-- The goals that are open once a call is made. -/
def stack (call : Call) : List Goal := call.goal :: call.around

/-- The number of expressions that are open once a call is made. -/
def openExpressions (call : Call) : Nat := call.stack.countP Goal.isExpression

def openParameters (call : Call) : Nat := call.stack.countP Goal.isParameter

/-- The number of handlers that are open once a call is made. -/
def openHandlers (call : Call) : Nat := call.stack.countP Goal.isHandler

end Call

/-- The calls of a routine, with a reader for the phrases that it asks for and with
the calls that are made for these. -/
def Routine.calls {α : Type} (nested : (goal : Goal) → Parser → Option (Outcome goal.Result))
    (inside : Goal → Parser → List Call) : Routine α → Parser → List Call
  | .done _, _ => []
  | .fail _, _ => []
  | .current go, p => calls nested inside (go p.cursor.current) p
  | .next go, p => calls nested inside (go p.cursor.next) p
  | .previous go, p => calls nested inside (go p.cursor.previous?) p
  | .advance go, p => calls nested inside go p.advance
  | .skipLines go, p => calls nested inside go p.skipLines
  | .isLocal name go, p => calls nested inside (go (p.scope.contains name)) p
  | .declare name go, p => calls nested inside (go (!p.scope.contains name)) (p.declare name)
  | .intern name go, p => calls nested inside go (p.intern name)
  | .read goal go, p =>
    inside goal p ++
      match nested goal p with
      | some (.ok result, q) => calls nested inside (go result) q
      | _ => []

/-- The calls of a phrase, inside what its goal puts around it. -/
def Goal.callsAround (limit : Option Nat) (body : Parser → List Call) (p : Parser) :
    Goal → List Call
  | .expression _ => if p.isFull limit then [] else body p.opened
  | .method => body (p.withScope .empty)
  | _ => body p

namespace Parser

/-- The calls that are made while a phrase is read with some fuel, its own first. -/
def callsWithin (limit : Option Nat) : Nat → List Goal → Goal → Parser → List Call
  | 0, _, _, _ => []
  | fuel + 1, around, goal, p =>
    ⟨goal, p, around⟩ :: goal.callsAround limit
      (goal.routine.calls (attempt limit fuel) (callsWithin limit fuel (goal :: around))) p

/-- The calls that are made while a phrase is read, its own first. -/
def calls (limit : Option Nat) (goal : Goal) (p : Parser) : List Call :=
  callsWithin limit (goal.cost p.cursor + 1) [] goal p

end Parser

/-! ## What every step inwards keeps -/

/-- Reading with any fuel leaves as many expressions open as it found. -/
theorem Parser.depth_of_attempt {limit : Option Nat} {fuel : Nat} {goal : Goal} {p q : Parser}
    {a : goal.Result} (found : attempt limit fuel goal p = some (.ok a, q)) :
    q.depth = p.depth :=
  (reads_of_attempt found).depth_eq

/-- Of the calls of a routine something holds if it holds of those that are made for
the goals it may ask for; these are read at the routine's own depth. -/
theorem Routine.forall_mem_calls {α : Type} {goals : Goal → Prop} {P : Call → Prop} {depth : Nat}
    {nested : (goal : Goal) → Parser → Option (Outcome goal.Result)}
    {inside : Goal → Parser → List Call}
    (keeps : ∀ goal p a q, nested goal p = some (.ok a, q) → q.depth = p.depth)
    (holds : ∀ goal p, goals goal → p.depth = depth → ∀ call ∈ inside goal p, P call)
    {r : Routine α} (only : r.Only goals) {p : Parser} (same : p.depth = depth) :
    ∀ call ∈ r.calls nested inside p, P call := by
  induction r generalizing p with
  | done => simp [calls]
  | fail => simp [calls]
  | current go ih => exact ih _ (only _) same
  | next go ih => exact ih _ (only _) same
  | previous go ih => exact ih _ (only _) same
  | advance go ih => exact @ih only p.advance same
  | skipLines go ih => exact @ih only p.skipLines same
  | isLocal name go ih => exact ih _ (only _) same
  | declare name go ih => exact @ih _ (only _) (p.declare name) same
  | intern name go ih => exact @ih only (p.intern name) same
  | read goal go ih =>
      intro call mem
      rw [calls] at mem
      rcases List.mem_append.mp mem with mem | mem
      · exact holds goal p only.1 same call mem
      · split at mem
        · rename_i a q found
          exact ih a (only.2 a) ((keeps _ _ _ _ found).trans same) call mem
        · cases mem

namespace Parser

variable {limit : Option Nat}

/-- What is kept on the way from a goal to those that it asks for holds of all calls
if it holds of the first.  Inside an expression, which had room, one more is open. -/
theorem callsWithin_induction {motive : List Goal → Parser → Prop}
    (step : ∀ outer around p inner q, motive (outer :: around) p → outer.Admits inner →
      (outer.isExpression = true → p.isFull limit = false) →
      q.depth = p.depth + outer.isExpression.toNat → motive (inner :: outer :: around) q)
    {fuel : Nat} {around : List Goal} {goal : Goal} {p : Parser}
    (start : motive (goal :: around) p) :
    ∀ call ∈ callsWithin limit fuel around goal p, motive call.stack call.parser := by
  induction fuel generalizing around goal p with
  | zero => simp [callsWithin]
  | succ fuel ih =>
      have inside (p' : Parser) (room : goal.isExpression = true → p.isFull limit = false)
          (depth : p'.depth = p.depth + goal.isExpression.toNat) :
          ∀ call ∈ goal.routine.calls (attempt limit fuel)
            (callsWithin limit fuel (goal :: around)) p', motive call.stack call.parser :=
        Routine.forall_mem_calls (fun _ _ _ _ => depth_of_attempt)
          (fun inner q admits same => ih (step goal around p inner q start admits room
            (same.trans depth)))
          goal.routine_only rfl
      intro call mem
      rw [callsWithin] at mem
      rcases List.mem_cons.mp mem with rfl | mem
      · exact start
      · cases goal with
        | expression min =>
            simp only [Goal.callsAround] at mem
            split at mem
            · exact absurd mem List.not_mem_nil
            · rename_i room
              exact inside p.opened (fun _ => Bool.eq_false_iff.mpr room) rfl call mem
        | method => exact inside (p.withScope .empty) (fun h => by cases h) rfl call mem
        | _ => exact inside p (fun h => by cases h) rfl call mem

/-- What is kept on the way inwards holds of all calls of a run. -/
theorem calls_induction {motive : List Goal → Parser → Prop}
    (step : ∀ outer around p inner q, motive (outer :: around) p → outer.Admits inner →
      (outer.isExpression = true → p.isFull limit = false) →
      q.depth = p.depth + outer.isExpression.toNat → motive (inner :: outer :: around) q)
    {goal : Goal} {p : Parser} (start : motive [goal] p) :
    ∀ call ∈ p.calls limit goal, motive call.stack call.parser :=
  callsWithin_induction step start

/-- The counter of a parser counts the expressions that are open around a call. -/
theorem depth_of_mem {goal : Goal} {p : Parser} {call : Call}
    (mem : call ∈ p.calls limit goal) :
    call.parser.depth = p.depth + call.around.countP Goal.isExpression := by
  have counted : ∀ call ∈ p.calls limit goal,
      call.parser.depth = p.depth + call.stack.tail.countP Goal.isExpression := by
    refine calls_induction
      (motive := fun stack q => q.depth = p.depth + stack.tail.countP Goal.isExpression) ?_ rfl
    intro outer around q inner q' same _ _ depth
    simp only [List.tail_cons] at same ⊢
    rw [depth, same, List.countP_cons, Nat.add_assoc]
    cases outer.isExpression <;> rfl
  exact counted call mem

/-- A parser with a limit never has more expressions open. -/
theorem depth_le_of_mem {most : Nat} {goal : Goal} {p : Parser} (start : p.depth ≤ most)
    {call : Call} (mem : call ∈ p.calls (some most) goal) : call.parser.depth ≤ most := by
  suffices bounded : ∀ call ∈ p.calls (some most) goal, call.parser.depth ≤ most from
    bounded call mem
  refine calls_induction (motive := fun _ q => q.depth ≤ most) ?_ start
  intro outer around q inner q' le _ room depth
  rw [depth]
  cases outer with
  | expression min =>
      have notFull : ¬ most ≤ q.depth := by simpa [isFull] using room rfl
      exact Nat.not_le.mp notFull
  | _ => exact le

end Parser

end RubyReader
