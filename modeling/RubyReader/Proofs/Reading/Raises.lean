/-
# `Raises` — which call an error comes from

A rule fails by itself, behind phrases that it could read (`Raises`), or because a phrase
inside it fails.  So an error comes from one call of a run, which is refused or fails by
itself; the run leads to it from call to call, each asked for by the one before as the
grammar allows, and stops at the token where that one does (`exists_failing_call`).
-/
import Mathlib.Logic.Relation
import RubyReader.Proofs.Reading.Calls
import RubyReader.Proofs.Reading.Moments

namespace RubyReader

/-! ## Routines that fail by themselves -/

namespace Routine

variable {α : Type}

/-- From `p` the routine fails by itself with an error at `q`, where the phrases inside it
are read as `nested` says. -/
def Raises (nested : Reader) : Routine α → Parser → ParseError → Parser → Prop
  | .done _, _, _, _ => False
  | .fail error, p, e, q => e = error ∧ q = p
  | .current go, p, e, q => Raises nested (go p.token) p e q
  | .next go, p, e, q => Raises nested (go p.cursor.next) p e q
  | .previous go, p, e, q => Raises nested (go p.cursor.previous?) p e q
  | .advance go, p, e, q => Raises nested go p.advance e q
  | .skipLines go, p, e, q => Raises nested go p.skipLines e q
  | .isLocal name go, p, e, q => Raises nested (go (p.scope.contains name)) p e q
  | .declare name go, p, e, q =>
    Raises nested (go (!p.scope.contains name)) (p.declare name) e q
  | .intern name go, p, e, q => Raises nested go (p.intern name) e q
  | .read goal go, p, e, q =>
    ∃ result p', nested goal p result p' ∧ Raises nested (go result) p' e q

variable {nested : Reader} {outer : Goal} {r : Routine α} {p q : Parser} {e : ParseError}

/-- A rule that keeps to where it stands fails as its goal may. -/
theorem Raises.fails (raises : r.Raises nested p e q) (heeds : r.Heeds outer p.cursor) :
    outer.Fails q.cursor e := by
  induction r generalizing p with
  | done => exact raises.elim
  | fail =>
      obtain ⟨rfl, rfl⟩ := raises
      exact heeds
  | current go ih => exact ih _ raises heeds
  | next go ih => exact ih _ raises heeds.2
  | previous go ih => exact ih _ raises heeds
  | advance go ih => exact ih raises heeds.2
  | skipLines go ih => exact ih raises heeds
  | isLocal name go ih => exact ih _ raises (heeds _)
  | declare name go ih => exact ih _ raises (heeds _)
  | intern name go ih => exact ih raises heeds
  | read goal go ih =>
      obtain ⟨result, p', found, rest⟩ := raises
      exact ih result rest (heeds.2 result p'.cursor)

/-- One routine after another fails in the first, or in the second behind it. -/
theorem raises_bind {β : Type} {k : α → Routine β} :
    (r >>= k).Raises nested p e q ↔
      r.Raises nested p e q ∨
        ∃ a p', r.Returns nested p a p' ∧ (k a).Raises nested p' e q := by
  show (r.bind k).Raises nested p e q ↔ _
  induction r generalizing p with
  | done result =>
      simp only [bind, Raises, Returns, false_or, and_assoc, exists_and_left, exists_eq_left]
  | fail => simp only [bind, Raises, Returns, false_and, exists_false, or_false]
  | current go ih => exact ih _
  | next go ih => exact ih _
  | previous go ih => exact ih _
  | advance go ih => exact ih
  | skipLines go ih => exact ih
  | isLocal name go ih => exact ih _
  | declare name go ih => exact ih _
  | intern name go ih => exact ih
  | read goal go ih =>
      simp only [bind, Raises, Returns, ih]
      constructor
      · rintro ⟨result, p₁, found, h | ⟨a, p₂, h, h'⟩⟩
        · exact .inl ⟨result, p₁, found, h⟩
        · exact .inr ⟨a, p₂, ⟨result, p₁, found, h⟩, h'⟩
      · rintro (⟨result, p₁, found, h⟩ | ⟨a, p₂, ⟨result, p₁, found, h⟩, h'⟩)
        · exact ⟨result, p₁, found, .inl h⟩
        · exact ⟨result, p₁, found, .inr ⟨a, p₂, h, h'⟩⟩

theorem raises_currentToken {k : Token → Routine α} :
    (currentToken >>= k).Raises nested p e q ↔ (k p.token).Raises nested p e q := Iff.rfl

theorem raises_declareLocal {name : String} {k : Bool → Routine α} :
    (declareLocal name >>= k).Raises nested p e q ↔
      (k (!p.scope.contains name)).Raises nested (p.declare name) e q := Iff.rfl

theorem raises_take {k : Token → Routine α} :
    (take >>= k).Raises nested p e q ↔ (k p.token).Raises nested p.advance e q := Iff.rfl

end Routine

/-! ## From a call to the one that it asks for

Each call in such a chain is asked for further on than the one before it, or at the same
place. -/

/-- A call asks for another: for a goal that the grammar asks for there, and further on. -/
structure Call.Asks (outer inner : Call) : Prop where
  around_eq : inner.around = outer.stack
  asked : inner.goal.AskedBy outer.goal
  starts : inner.goal.Starts inner.parser.cursor
  onward : outer.parser.cursor.Onward inner.parser.cursor

/-- One of some calls leads to another: through calls that ask for each other. -/
def Call.Leads (calls : List Call) : Call → Call → Prop :=
  Relation.ReflTransGen fun outer inner => outer.Asks inner ∧ inner ∈ calls

theorem Call.leads_mono {calls more : List Call} {outer inner : Call} (sub : calls ⊆ more)
    (leads : outer.Leads calls inner) : outer.Leads more inner := by
  induction leads with
  | refl => exact .refl
  | tail _ asks ih => exact .tail ih ⟨asks.1, sub asks.2⟩

theorem Call.onward_of_leads {calls : List Call} {outer inner : Call}
    (leads : outer.Leads calls inner) : outer.parser.cursor.Onward inner.parser.cursor := by
  induction leads with
  | refl => exact .refl _
  | tail _ asks ih => exact ih.trans asks.1.onward

/-- A call fails by itself where a cursor stands: it is refused, or its rule fails. -/
def Call.Fails (limit : Option Nat) (call : Call) (e : ParseError) (c : Cursor) : Prop :=
  call.goal.isRefused limit call.parser = true ∧
      e = .malformed (.blame .nestedTooDeeply call.parser.token) ∧ c = call.parser.cursor ∨
    ∃ q, call.goal.routine.Raises (Reads limit) (call.goal.enter call.parser) e q ∧
      q.cursor = c

/-- However a call fails by itself, it fails as its goal may. -/
theorem Call.Fails.fails {limit : Option Nat} {call : Call} {e : ParseError} {c : Cursor}
    (fails : call.Fails limit e c) (starts : call.goal.Starts call.parser.cursor) :
    call.goal.Fails c e := by
  rcases fails with ⟨-, rfl, rfl⟩ | ⟨q, raises, rfl⟩
  · exact .current ..
  · exact raises.fails (Goal.heeds_enter starts)

/-- A routine that has failed did so by itself, or a phrase that it asked for has. -/
theorem Routine.error_cases {α : Type} {limit : Option Nat} {fuel : Nat} {outer : Goal}
    {r : Routine α} {p q : Parser} {e : ParseError} (heeds : r.Heeds outer p.cursor)
    (inside : Goal → Parser → List Call)
    (run : r.run (Parser.attempt limit fuel) p = some (.error e, q)) :
    r.Raises (Reads limit) p e q ∨
      ∃ inner p', (inner.Starts p'.cursor ∧ inner.AskedBy outer) ∧ p.cursor.Onward p'.cursor ∧
        Parser.attempt limit fuel inner p' = some (.error e, q) ∧
        inside inner p' ⊆ r.calls (Parser.attempt limit fuel) inside p := by
  induction r generalizing p with
  | done => cases run
  | fail =>
      cases run
      exact .inl ⟨rfl, rfl⟩
  | current go ih => exact ih _ heeds run
  | next go ih => exact ih _ heeds.2 run
  | previous go ih => exact ih _ heeds run
  | advance go ih =>
      rcases @ih p.advance heeds.2 run with raises | ⟨inner, p', asked, onward, found, sub⟩
      · exact .inl raises
      · exact .inr ⟨inner, p', asked, (Cursor.Onward.advance heeds.1).trans onward, found, sub⟩
  | skipLines go ih =>
      rcases @ih p.skipLines heeds run with raises | ⟨inner, p', asked, onward, found, sub⟩
      · exact .inl raises
      · exact .inr ⟨inner, p', asked, (Cursor.Onward.skipLines _).trans onward, found, sub⟩
  | isLocal name go ih => exact ih _ (heeds _) run
  | declare name go ih => exact @ih _ (p.declare name) (heeds _) run
  | intern name go ih => exact @ih (p.intern name) heeds run
  | read goal go ih =>
      rw [Routine.run] at run
      rw [calls]
      cases found : Parser.attempt limit fuel goal p with
      | none => simp [found] at run
      | some outcome =>
          obtain ⟨result, p'⟩ := outcome
          rw [found] at run
          cases result with
          | error e' =>
              cases run
              exact .inr ⟨goal, p, heeds.1, .refl _, found, List.subset_append_left _ _⟩
          | ok a =>
              have passed := (Parser.attempt_journey heeds.1.1 found).passage.onward
              rcases ih a (heeds.2 a p'.cursor) run with
                raises | ⟨inner, p'', asked, onward, failed, sub⟩
              · exact .inl ⟨a, p', reads_of_attempt found, raises⟩
              · exact .inr ⟨inner, p'', asked, passed.trans onward, failed,
                  List.subset_append_of_subset_right _ sub⟩

/-! ## The way out of a failure -/

namespace Parser

variable {limit : Option Nat} {goal : Goal} {p q : Parser} {e : ParseError}

/-- A phrase with an outcome was called for. -/
theorem mem_callsWithin_self {fuel : Nat} {around : List Goal} {outcome : Outcome goal.Result}
    (found : attempt limit fuel goal p = some outcome) :
    ⟨goal, p, around⟩ ∈ callsWithin limit fuel around goal p := by
  cases fuel with
  | zero => cases found
  | succ fuel => exact List.mem_cons_self ..

theorem calls_subset_callsWithin {fuel : Nat} {around : List Goal}
    (room : goal.isRefused limit p = false) :
    goal.routine.calls (attempt limit fuel) (callsWithin limit fuel (goal :: around))
      (goal.enter p) ⊆ callsWithin limit (fuel + 1) around goal p := by
  rw [callsWithin]
  refine List.subset_cons_of_subset _ ?_
  cases goal with
  | expression min =>
      have notFull : p.isFull limit = false := room
      simp [Goal.callsAround, notFull, Goal.enter]
  | _ => exact List.Subset.refl _

/-- A phrase that fails leads to a call that fails by itself, with any fuel. -/
theorem exists_failing_call_within {fuel : Nat} {around : List Goal} (starts : goal.Starts p.cursor)
    (found : attempt limit fuel goal p = some (.error e, q)) :
    ∃ call ∈ callsWithin limit fuel around goal p,
      Call.Leads (callsWithin limit fuel around goal p) ⟨goal, p, around⟩ call ∧
        call.goal.Starts call.parser.cursor ∧ call.Fails limit e q.cursor := by
  induction fuel generalizing goal p q around with
  | zero => cases found
  | succ fuel ih =>
      have own : ⟨goal, p, around⟩ ∈ callsWithin limit (fuel + 1) around goal p :=
        List.mem_cons_self ..
      rw [attempt] at found
      rcases Goal.around_cases found with ⟨refused, blamed, rfl⟩ | ⟨room, q', run, rfl⟩
      · cases blamed
        exact ⟨_, own, .refl, starts, .inl ⟨refused, rfl, rfl⟩⟩
      · rw [Goal.cursor_leave]
        rcases Routine.error_cases (Goal.heeds_enter starts)
            (callsWithin limit fuel (goal :: around)) run with
          raises | ⟨inner, p', asked, onward, failed, sub⟩
        · exact ⟨_, own, .refl, starts, .inr ⟨q', raises, rfl⟩⟩
        · have sub := List.Subset.trans sub (calls_subset_callsWithin room)
          obtain ⟨call, mem, leads, fails⟩ := @ih inner p' q' (goal :: around) asked.1 failed
          rw [Goal.cursor_enter] at onward
          have asks : Call.Asks ⟨goal, p, around⟩ ⟨inner, p', goal :: around⟩ :=
            ⟨rfl, asked.2, asked.1, onward⟩
          have first := sub (mem_callsWithin_self failed)
          exact ⟨call, sub mem, .head ⟨asks, first⟩ (Call.leads_mono sub leads), fails⟩

/-- A phrase that fails leads to a call that fails by itself. -/
theorem exists_failing_call (starts : goal.Starts p.cursor)
    (found : p.read limit goal = (.error e, q)) :
    ∃ call ∈ p.calls limit goal, Call.Leads (p.calls limit goal) ⟨goal, p, []⟩ call ∧
      call.goal.Starts call.parser.cursor ∧ call.Fails limit e q.cursor := by
  have attempted := attempt_eq_read limit goal p
  rw [found] at attempted
  exact exists_failing_call_within starts attempted

end Parser

end RubyReader
