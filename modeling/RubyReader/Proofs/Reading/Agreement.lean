/-
# `Agreement` — what has been read decides the outcome

Two parsers agree up to an index (`Parser.Agree`) if they stand at the same index, have the
same tokens up to it, and the same variables, symbols and open expressions.  A phrase that
is read from one of them without getting beyond the index is read from the other in the
same way, and they agree afterwards (`read_agree`).  A rule that looks at the token behind
its own steps onto it at once, so it looks at none that it does not get to.
-/
import RubyReader.Proofs.Reading.Moments

namespace RubyReader

/-! ## Cursors that agree -/

/-- Two cursors stand at the same index, among tokens that are the same up to another one. -/
structure Cursor.Agree (last : Nat) (c c' : Cursor) : Prop where
  index_eq : c'.index = c.index
  tokens_eq : c'.tokens.take (last + 1) = c.tokens.take (last + 1)

namespace Cursor.Agree

variable {last : Nat} {c c' : Cursor}

/-- Up to the index, token by token. -/
theorem getElem?_eq (agree : c.Agree last c') {i : Nat} (le : i ≤ last) :
    c'.tokens[i]? = c.tokens[i]? := by
  have inside : i < last + 1 := Nat.lt_succ_of_le le
  calc c'.tokens[i]? = (c'.tokens.take (last + 1))[i]? := (List.getElem?_take_of_lt inside).symm
    _ = (c.tokens.take (last + 1))[i]? := by rw [agree.tokens_eq]
    _ = c.tokens[i]? := List.getElem?_take_of_lt inside

theorem current_eq (agree : c.Agree last c') (le : c.index ≤ last) : c'.current = c.current := by
  have same := agree.getElem?_eq le
  rw [c.getElem?_index, ← agree.index_eq, c'.getElem?_index] at same
  exact Option.some.inj same

theorem next_eq (agree : c.Agree last c') (noEnd : c.current.kind ≠ .eof)
    (le : c.index + 1 ≤ last) : c'.next = c.next := by
  have same := agree.getElem?_eq le
  have current := agree.current_eq (Nat.le_of_succ_le le)
  rw [getElem?_next noEnd, ← agree.index_eq, getElem?_next (current ▸ noEnd)] at same
  exact Option.some.inj same

theorem before_eq (agree : c.Agree last c') (le : c.index ≤ last) : c'.before = c.before := by
  have passed (d : Cursor) (le : d.index ≤ last) :
      (d.tokens.take (last + 1)).take d.index = d.before.reverse := by
    rw [List.take_take, Nat.min_eq_left (Nat.le_succ_of_le le), tokens, index,
      ← List.length_reverse, List.take_left]
  have same := passed c' (agree.index_eq ▸ le)
  rw [agree.tokens_eq, agree.index_eq, passed c le] at same
  exact (List.reverse_inj.mp same).symm

theorem previous_eq (agree : c.Agree last c') (le : c.index ≤ last) :
    c'.previous? = c.previous? := by
  rw [previous?, previous?, agree.before_eq le]

theorem advance (agree : c.Agree last c') (noEnd : c.current.kind ≠ .eof) (le : c.index ≤ last) :
    c.advance.Agree last c'.advance := by
  refine ⟨?_, ?_⟩
  · rw [index_advance noEnd, index_advance (agree.current_eq le ▸ noEnd), agree.index_eq]
  · rw [tokens_advance, tokens_advance, agree.tokens_eq]

theorem skipLines (agree : c.Agree last c') (le : c.skipLines.index ≤ last) :
    c.skipLines.Agree last c'.skipLines := by
  induction c using lines_induction generalizing c' with
  | stop c other =>
      rw [skipLines_of_ne other] at le ⊢
      rwa [skipLines_of_ne (agree.current_eq le ▸ other)]
  | step c newline ih =>
      have here : c.index ≤ last := Nat.le_trans (Onward.skipLines c).index_le le
      have newline' : c'.current.kind = .newline := by rwa [agree.current_eq here]
      rw [skipLines_of_newline newline] at le ⊢
      rw [skipLines_of_newline newline']
      exact ih (agree.advance (by simp [newline]) here) le

end Cursor.Agree

/-! ## Parsers that agree -/

/-- Two parsers of which the cursors agree, with the same variables, symbols and number of
open expressions. -/
structure Parser.Agree (last : Nat) (p p' : Parser) : Prop where
  cursor : p.cursor.Agree last p'.cursor
  scope_eq : p'.scope = p.scope
  symbols_eq : p'.symbols = p.symbols
  depth_eq : p'.depth = p.depth

namespace Parser.Agree

variable {last : Nat} {p p' : Parser}

theorem advance (agree : p.Agree last p') (noEnd : p.token.kind ≠ .eof)
    (le : p.cursor.index ≤ last) : p.advance.Agree last p'.advance :=
  ⟨agree.cursor.advance noEnd le, agree.scope_eq, agree.symbols_eq, agree.depth_eq⟩

theorem skipLines (agree : p.Agree last p') (le : p.skipLines.cursor.index ≤ last) :
    p.skipLines.Agree last p'.skipLines :=
  ⟨agree.cursor.skipLines le, agree.scope_eq, agree.symbols_eq, agree.depth_eq⟩

theorem declare (agree : p.Agree last p') (name : String) :
    (p.declare name).Agree last (p'.declare name) :=
  ⟨agree.cursor, congrArg (·.insert name) agree.scope_eq, agree.symbols_eq, agree.depth_eq⟩

theorem intern (agree : p.Agree last p') (name : String) :
    (p.intern name).Agree last (p'.intern name) :=
  ⟨agree.cursor, agree.scope_eq, congrArg (·.insert name) agree.symbols_eq, agree.depth_eq⟩

theorem enter (agree : p.Agree last p') (goal : Goal) :
    (goal.enter p).Agree last (goal.enter p') := by
  cases goal with
  | expression min =>
      exact ⟨agree.cursor, agree.scope_eq, agree.symbols_eq, congrArg (· + 1) agree.depth_eq⟩
  | method => exact ⟨agree.cursor, rfl, agree.symbols_eq, agree.depth_eq⟩
  | _ => exact agree

theorem leave {q q' : Parser} (agree : p.Agree last p') (goal : Goal) (behind : q.Agree last q') :
    (goal.leave p q).Agree last (goal.leave p' q') := by
  cases goal with
  | expression min =>
      exact ⟨behind.cursor, behind.scope_eq, behind.symbols_eq, congrArg (· - 1) behind.depth_eq⟩
  | method => exact ⟨behind.cursor, agree.scope_eq, behind.symbols_eq, behind.depth_eq⟩
  | _ => exact behind

theorem isRefused_eq (agree : p.Agree last p') (limit : Option Nat) (goal : Goal) :
    goal.isRefused limit p' = goal.isRefused limit p := by
  cases goal with
  | expression min =>
      exact congrArg (fun depth => limit.any fun most => most ≤ depth) agree.depth_eq
  | _ => rfl

end Parser.Agree

/-! ## Reading from parsers that agree -/

/-- A routine that steps on gets behind the token at which it stands. -/
theorem Routine.index_lt_of_stepsOn {α : Type} {limit : Option Nat} {fuel : Nat} {outer : Goal}
    {r : Routine α} {p q : Parser} {result : Except ParseError α} (stepsOn : r.StepsOn)
    (heeds : r.Heeds outer p.cursor)
    (run : r.run (Parser.attempt limit fuel) p = some (result, q)) :
    p.token.kind ≠ .eof ∧ p.cursor.index < q.cursor.index := by
  cases r with
  | advance go =>
      have behind : p.cursor.advance.index ≤ q.cursor.index :=
        (Parser.run_onward (p := p.advance) heeds.2 run).index_le
      rw [Cursor.index_advance heeds.1] at behind
      exact ⟨heeds.1, behind⟩
  | _ => exact stepsOn.elim

/-- A routine that does not get beyond an index does the same from parsers that agree up to
it, if the phrases inside it are read in the same way. -/
theorem Routine.run_agree {α : Type} {limit : Option Nat} {fuel last : Nat} {outer : Goal}
    (inside : ∀ goal (p p' : Parser) result q, goal.Starts p.cursor →
      Parser.attempt limit fuel goal p = some (result, q) → q.cursor.index ≤ last →
      p.Agree last p' →
      ∃ q', Parser.attempt limit fuel goal p' = some (result, q') ∧ q.Agree last q')
    {r : Routine α} {p p' q : Parser} {result : Except ParseError α}
    (heeds : r.Heeds outer p.cursor) (run : r.run (Parser.attempt limit fuel) p = some (result, q))
    (le : q.cursor.index ≤ last) (agree : p.Agree last p') :
    ∃ q', r.run (Parser.attempt limit fuel) p' = some (result, q') ∧ q.Agree last q' := by
  have here : p.cursor.index ≤ last := Nat.le_trans (Parser.run_onward heeds run).index_le le
  induction r generalizing p p' with
  | done =>
      cases run
      exact ⟨p', rfl, agree⟩
  | fail =>
      cases run
      exact ⟨p', rfl, agree⟩
  | current go ih =>
      rw [Routine.run, agree.cursor.current_eq here]
      exact ih _ heeds run agree here
  | next go ih =>
      -- what is looked at is stepped onto, so the other parser has it too
      obtain ⟨noEnd, lt⟩ := index_lt_of_stepsOn heeds.1 heeds.2 run
      rw [Routine.run, agree.cursor.next_eq noEnd (Nat.le_trans lt le)]
      exact ih _ heeds.2 run agree here
  | previous go ih =>
      rw [Routine.run, agree.cursor.previous_eq here]
      exact ih _ heeds run agree here
  | advance go ih =>
      have there := (Parser.run_onward (p := p.advance) heeds.2 run).index_le
      exact @ih p.advance p'.advance heeds.2 run (agree.advance heeds.1 here)
        (Nat.le_trans there le)
  | skipLines go ih =>
      have there := (Parser.run_onward (p := p.skipLines) heeds run).index_le
      exact @ih p.skipLines p'.skipLines heeds run (agree.skipLines (Nat.le_trans there le))
        (Nat.le_trans there le)
  | isLocal name go ih =>
      rw [Routine.run, agree.scope_eq]
      exact ih _ (heeds _) run agree here
  | declare name go ih =>
      have rest := @ih _ (p.declare name) (p'.declare name) (heeds _) run (agree.declare name) here
      rwa [← agree.scope_eq] at rest
  | intern name go ih =>
      exact @ih (p.intern name) (p'.intern name) heeds run (agree.intern name) here
  | read goal go ih =>
      rw [Routine.run] at run ⊢
      cases found : Parser.attempt limit fuel goal p with
      | none => simp [found] at run
      | some outcome =>
          obtain ⟨inner, q₁⟩ := outcome
          rw [found] at run
          cases inner with
          | error e =>
              obtain ⟨rfl, rfl⟩ := Prod.mk.inj (Option.some.inj run)
              obtain ⟨q', found', agree'⟩ := inside goal p p' _ _ heeds.1.1 found le agree
              exact ⟨q', by rw [found'], agree'⟩
          | ok a =>
              have rest := heeds.2 a q₁.cursor
              have there := Nat.le_trans (Parser.run_onward rest run).index_le le
              obtain ⟨q₁', found', agree'⟩ := inside goal p p' _ _ heeds.1.1 found there agree
              rw [found']
              exact ih a rest run agree' there

namespace Parser

variable {limit : Option Nat} {last : Nat} {goal : Goal} {p p' q : Parser}
  {result : Except ParseError goal.Result}

theorem attempt_agree {fuel : Nat} (starts : goal.Starts p.cursor)
    (found : attempt limit fuel goal p = some (result, q)) (le : q.cursor.index ≤ last)
    (agree : p.Agree last p') :
    ∃ q', attempt limit fuel goal p' = some (result, q') ∧ q.Agree last q' := by
  induction fuel generalizing goal p p' q with
  | zero => cases found
  | succ fuel ih =>
      rw [attempt] at found ⊢
      rcases Goal.around_cases found with ⟨refused, rfl, rfl⟩ | ⟨room, q₁, run, rfl⟩
      · refine ⟨p', ?_, agree⟩
        rw [Goal.around_eq, agree.isRefused_eq, if_pos refused, refuse, agree.cursor.current_eq le]
        rfl
      · rw [Goal.cursor_leave] at le
        obtain ⟨q₁', run', agree'⟩ := Routine.run_agree
          (fun _ _ _ _ _ starts found => ih starts found) (Goal.heeds_enter starts) run le
          (agree.enter goal)
        refine ⟨goal.leave p' q₁', ?_, agree.leave goal agree'⟩
        exact Goal.around_of_room ((agree.isRefused_eq limit goal).trans room) run'

/-- From parsers that agree up to where a phrase ends, or fails, the same is read. -/
theorem read_agree (starts : goal.Starts p.cursor) (found : p.read limit goal = (result, q))
    (le : q.cursor.index ≤ last) (agree : p.Agree last p') :
    ∃ q', p'.read limit goal = (result, q') ∧ q.Agree last q' := by
  have attempted := attempt_eq_read limit goal p
  rw [found] at attempted
  obtain ⟨q', attempted', agree'⟩ := attempt_agree starts attempted le agree
  exact ⟨q', (eq_read_of_attempt attempted').symm, agree'⟩

end Parser

end RubyReader
