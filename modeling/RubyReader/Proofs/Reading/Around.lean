/-
# `Around` — what is put around a phrase

An expression is open while it is read, and a method has a scope of its own.  Both say
where a rule begins (`enter`) and what becomes of the parser behind it (`leave`); around the
other phrases nothing is put.  An expression too many is refused and not read at all.
-/
import RubyReader.Proofs.Reading.Returns

namespace RubyReader.Goal

/-- The parser that the rule of a goal begins with. -/
def enter : Goal → Parser → Parser
  | .expression _, p => p.opened
  | .method, p => p.withScope .empty
  | _, p => p

/-- What becomes of the parser behind the rule of a goal, which began outside with another. -/
def leave (outside : Parser) : Goal → Parser → Parser
  | .expression _, q => q.closed
  | .method, q => q.withScope outside.scope
  | _, q => q

/-- Whether a phrase is not read because too many expressions are open. -/
def isRefused (limit : Option Nat) (p : Parser) : Goal → Bool
  | .expression _ => p.isFull limit
  | _ => false

variable {limit : Option Nat} {goal : Goal} {p q : Parser}

/-- A phrase is refused, or its rule is run between entering and leaving. -/
theorem around_eq (limit : Option Nat) (goal : Goal)
    (body : Parser → Option (Outcome goal.Result)) (p : Parser) :
    goal.around limit body p =
      if goal.isRefused limit p then some p.refuse
      else (body (goal.enter p)).map fun (result, q) => (result, goal.leave p q) := by
  have nothing (found : Option (Outcome goal.Result)) :
      found = found.map fun (result, q) => (result, q) := by cases found <;> rfl
  cases goal with
  | expression min => rfl
  | method => rfl
  | _ => exact nothing _

theorem around_cases {body : Parser → Option (Outcome goal.Result)}
    {result : Except ParseError goal.Result}
    (found : goal.around limit body p = some (result, q)) :
    (goal.isRefused limit p = true ∧
      result = .error (.malformed (.blame .nestedTooDeeply p.token)) ∧ q = p) ∨
    goal.isRefused limit p = false ∧
      ∃ q', body (goal.enter p) = some (result, q') ∧ q = goal.leave p q' := by
  rw [around_eq] at found
  split at found
  · rename_i refused
    obtain ⟨rfl, rfl⟩ := Prod.mk.inj (Option.some.inj found)
    exact .inl ⟨refused, rfl, rfl⟩
  · rename_i room
    obtain ⟨⟨inner, q'⟩, run, e⟩ := Option.map_eq_some_iff.mp found
    obtain ⟨rfl, rfl⟩ := Prod.mk.inj e
    exact .inr ⟨Bool.eq_false_iff.mpr room, q', run, rfl⟩

/-- A phrase that is not refused has the outcome of its rule. -/
theorem around_of_room {body : Parser → Option (Outcome goal.Result)}
    {result : Except ParseError goal.Result} (room : goal.isRefused limit p = false)
    (run : body (goal.enter p) = some (result, q)) :
    goal.around limit body p = some (result, goal.leave p q) := by
  rw [around_eq, room, run]
  rfl

@[simp] theorem cursor_enter : (goal.enter p).cursor = p.cursor := by cases goal <;> rfl

@[simp] theorem cursor_leave : (goal.leave p q).cursor = q.cursor := by cases goal <;> rfl

theorem depth_leave (same : q.depth = (goal.enter p).depth) : (goal.leave p q).depth = p.depth := by
  cases goal with
  | expression min => exact congrArg (· - 1) same
  | _ => exact same

end RubyReader.Goal
