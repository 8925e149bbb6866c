/-
# `Matching` — parsers that read the same in different scopes

Two parsers in front of the same tokens, behind the same one, read the same if their scopes
have the same variables among the names there; what else is in scope, what was passed
further back, and which symbols there are does not matter (`Parser.read_matching`):

    Facing     in front of the same tokens, with the same relevant variables
    Matching   facing, and behind the same token
    Parallel   two parsers become two matching ones, and declare the same variables

An expression moves on from what it stands behind, so there facing is enough
(`Reads.facing`).
-/
import RubyReader.Proofs.Reading.Around
import RubyReader.Proofs.Reading.Heeds
import RubyReader.Proofs.Reading.Invariants
import RubyReader.Proofs.Reading.Regard

namespace RubyReader

/-! ## Cursors in front of the same tokens -/

namespace Cursor

variable {c c' : Cursor}

theorem upcoming_advance_congr (h : c'.upcoming = c.upcoming) :
    c'.advance.upcoming = c.advance.upcoming := by
  obtain ⟨before, current, after, ends⟩ := c
  obtain ⟨before', current', after', ends'⟩ := c'
  obtain ⟨rfl, rfl⟩ := List.cons.inj h
  cases after' <;> rfl

theorem previous_advance_congr (h : c'.upcoming = c.upcoming) (h' : c'.previous? = c.previous?) :
    c'.advance.previous? = c.advance.previous? := by
  obtain ⟨before, current, after, ends⟩ := c
  obtain ⟨before', current', after', ends'⟩ := c'
  obtain ⟨rfl, rfl⟩ := List.cons.inj h
  cases after' with
  | nil => exact h'
  | cons => rfl

theorem upcoming_advance_subset (c : Cursor) : c.advance.upcoming ⊆ c.upcoming := by
  obtain ⟨before, current, after, ends⟩ := c
  cases after with
  | nil => exact List.Subset.refl _
  | cons => exact List.subset_cons_self _ _

end Cursor

/-! ## Parsers in front of the same tokens -/

namespace Parser

/-- Two parsers in front of the same tokens, with the same variables among the relevant
names, which all names among the tokens are.  Without a limit it does not matter how many
expressions are open. -/
structure Facing (limit : Option Nat) (relevant : String → Prop) (p p' : Parser) : Prop where
  upcoming_eq : p'.cursor.upcoming = p.cursor.upcoming
  depth_eq : limit = none ∨ p'.depth = p.depth
  scope_iff : ∀ name, relevant name → (name ∈ p'.scope ↔ name ∈ p.scope)
  seen : ∀ token ∈ p.cursor.upcoming, token.Relevant relevant

/-- They also stand behind the same token. -/
structure Matching (limit : Option Nat) (relevant : String → Prop) (p p' : Parser) : Prop
    extends Facing limit relevant p p' where
  previous_eq : p'.cursor.previous? = p.cursor.previous?

variable {limit : Option Nat} {relevant : String → Prop} {p p' q q' r r' : Parser}

namespace Facing

theorem token_eq (same : p.Facing limit relevant p') : p'.token = p.token :=
  (List.cons.inj same.upcoming_eq).1

theorem next_eq (same : p.Facing limit relevant p') : p'.cursor.next = p.cursor.next := by
  have after : p'.cursor.after = p.cursor.after := (List.cons.inj same.upcoming_eq).2
  have current : p'.cursor.current = p.cursor.current := same.token_eq
  rw [Cursor.next, Cursor.next, after, current]

theorem token_relevant (same : p.Facing limit relevant p') : p.token.Relevant relevant :=
  same.seen _ List.mem_cons_self

theorem next_relevant (same : p.Facing limit relevant p') :
    p.cursor.next.Relevant relevant := by
  refine same.seen _ ?_
  obtain ⟨⟨before, current, after, ends⟩, scope, symbols, depth⟩ := p
  cases after with
  | nil => exact List.mem_cons_self
  | cons => exact List.mem_cons_of_mem _ List.mem_cons_self

theorem contains_eq (same : p.Facing limit relevant p') {name : String} (known : relevant name) :
    p'.scope.contains name = p.scope.contains name :=
  decide_eq_decide.mpr (same.scope_iff name known)

theorem advance (same : p.Facing limit relevant p') :
    p.advance.Facing limit relevant p'.advance where
  upcoming_eq := Cursor.upcoming_advance_congr same.upcoming_eq
  depth_eq := same.depth_eq
  scope_iff := same.scope_iff
  seen token mem := same.seen token (p.cursor.upcoming_advance_subset mem)

theorem skipLines (same : p.Facing limit relevant p') :
    p.skipLines.Facing limit relevant p'.skipLines :=
  skipLines_both (fun _ _ same => by rw [same.token_eq]) (fun _ _ same _ => same.advance) same

theorem opened (same : p.Facing limit relevant p') :
    p.opened.Facing limit relevant p'.opened where
  upcoming_eq := same.upcoming_eq
  depth_eq := same.depth_eq.imp id (congrArg (· + 1))
  scope_iff := same.scope_iff
  seen := same.seen

theorem isFull_eq (same : p.Facing limit relevant p') : p'.isFull limit = p.isFull limit := by
  rcases same.depth_eq with rfl | depth
  · rfl
  · rw [isFull, isFull, depth]

/-- Behind a token that does not end the input both stand behind it. -/
theorem advance_matching (same : p.Facing limit relevant p') (ne : p.token.kind ≠ .eof) :
    p.advance.Matching limit relevant p'.advance where
  toFacing := same.advance
  previous_eq := by
    have behind : p.advance.cursor.previous? = some p.token := previous_advance ne
    have behind' : p'.advance.cursor.previous? = some p'.token :=
      previous_advance (by rwa [same.token_eq])
    rw [behind, behind', same.token_eq]

end Facing

namespace Matching

theorem advance (same : p.Matching limit relevant p') :
    p.advance.Matching limit relevant p'.advance :=
  ⟨same.toFacing.advance, Cursor.previous_advance_congr same.upcoming_eq same.previous_eq⟩

theorem skipLines (same : p.Matching limit relevant p') :
    p.skipLines.Matching limit relevant p'.skipLines :=
  skipLines_both (fun _ _ same => by rw [same.token_eq]) (fun _ _ same _ => same.advance) same

theorem intern (same : p.Matching limit relevant p') (name : String) :
    (p.intern name).Matching limit relevant (p'.intern name) :=
  ⟨⟨same.upcoming_eq, same.depth_eq, same.scope_iff, same.seen⟩, same.previous_eq⟩

theorem declare (same : p.Matching limit relevant p') (name : String) :
    (p.declare name).Matching limit relevant (p'.declare name) := by
  refine ⟨⟨same.upcoming_eq, same.depth_eq, fun other known => ?_, same.seen⟩, same.previous_eq⟩
  rw [scope_declare, scope_declare, Names.mem_insert, Names.mem_insert,
    same.scope_iff other known]

theorem enter (same : p.Matching limit relevant p') (goal : Goal) :
    (goal.enter p).Matching limit relevant (goal.enter p') := by
  cases goal with
  | expression min => exact ⟨same.toFacing.opened, same.previous_eq⟩
  | method =>
      exact ⟨⟨same.upcoming_eq, same.depth_eq, fun _ _ => Iff.rfl, same.seen⟩, same.previous_eq⟩
  | _ => exact same

theorem isRefused_eq (same : p.Matching limit relevant p') (goal : Goal) :
    goal.isRefused limit p' = goal.isRefused limit p := by
  cases goal with
  | expression min => exact same.isFull_eq
  | _ => rfl

end Matching

/-! ## From parsers to parsers

Steps keep parsers matching, and so does what a goal puts around its rule, which opens and
closes expressions and declares nothing. -/

/-- Two parsers have become two matching ones, and have declared the same variables. -/
structure Parallel (limit : Option Nat) (relevant : String → Prop) (p p' q q' : Parser) :
    Prop where
  matching : q.Matching limit relevant q'
  declared : ∃ names, q.scope.toList = p.scope.toList ++ names ∧
    q'.scope.toList = p'.scope.toList ++ names

namespace Parallel

/-- Without a declaration. -/
theorem of_scope_eq (matching : q.Matching limit relevant q') (scope : q.scope = p.scope)
    (scope' : q'.scope = p'.scope) : Parallel limit relevant p p' q q' :=
  ⟨matching, [], by rw [scope, List.append_nil], by rw [scope', List.append_nil]⟩

theorem trans (first : Parallel limit relevant p p' q q')
    (next : Parallel limit relevant q q' r r') : Parallel limit relevant p p' r r' := by
  obtain ⟨names, grown, grown'⟩ := first.declared
  obtain ⟨more, further, further'⟩ := next.declared
  refine ⟨next.matching, names ++ more, ?_, ?_⟩
  · rw [further, grown, List.append_assoc]
  · rw [further', grown', List.append_assoc]

/-- A relevant name is new to both scopes, or to neither. -/
theorem declare (same : p.Matching limit relevant p') {name : String} (known : relevant name) :
    Parallel limit relevant p p' (p.declare name) (p'.declare name) := by
  refine ⟨same.declare name, if name ∈ p.scope then [] else [name], ?_, ?_⟩
  · rw [scope_declare, Names.toList_insert]
    split <;> simp
  · rw [scope_declare, Names.toList_insert]
    simp only [same.scope_iff name known]
    split <;> simp

theorem closed (inside : Parallel limit relevant p p' q q') :
    Parallel limit relevant p p' q.closed q'.closed := by
  obtain ⟨behind, declared⟩ := inside
  exact ⟨⟨⟨behind.upcoming_eq, behind.depth_eq.imp id (congrArg (· - 1)), behind.scope_iff,
    behind.seen⟩, behind.previous_eq⟩, declared⟩

theorem leave (goal : Goal) (same : p.Matching limit relevant p')
    (inside : Parallel limit relevant (goal.enter p) (goal.enter p') q q') :
    Parallel limit relevant p p' (goal.leave p q) (goal.leave p' q') := by
  obtain ⟨behind, declared⟩ := inside
  cases goal with
  | expression min => exact closed ⟨behind, declared⟩
  | method =>
      exact .of_scope_eq ⟨⟨behind.upcoming_eq, behind.depth_eq, same.scope_iff, behind.seen⟩,
        behind.previous_eq⟩ rfl rfl
  | _ => exact ⟨behind, declared⟩

end Parallel

/-- What is read from `p` is read from `p'` in the same way, and is as `post` says. -/
def Repeats {α : Type} (limit : Option Nat) (relevant : String → Prop) (post : α → Prop)
    (p p' : Parser) (result : Except ParseError α) (q : Parser) (again : Option (Outcome α)) :
    Prop :=
  ∃ q', again = some (result, q') ∧ Parallel limit relevant p p' q q' ∧
    ∀ a, result = .ok a → post a

theorem Repeats.behind {α : Type} {post : α → Prop} {result : Except ParseError α}
    {again : Option (Outcome α)} (first : Parallel limit relevant p p' q q')
    (rest : Repeats limit relevant post q q' result r again) :
    Repeats limit relevant post p p' result r again := by
  obtain ⟨r', found, parallel, known⟩ := rest
  exact ⟨r', found, first.trans parallel, known⟩

end Parser

open RubyReader.Parser

/-! ## Reading from matching parsers -/

variable {limit : Option Nat} {relevant : String → Prop}

/-- A reader reads the same from matching parsers. -/
def ReadsAlike (limit : Option Nat) (relevant : String → Prop)
    (nested : (goal : Goal) → Parser → Option (Outcome goal.Result)) : Prop :=
  ∀ (goal : Goal) (p p' q : Parser) (result : Except ParseError goal.Result),
    goal.Regards relevant → nested goal p = some (result, q) → p.Matching limit relevant p' →
      Repeats limit relevant (goal.Relevant relevant) p p' result q (nested goal p')

/-- A routine that asks only for relevant names does the same from matching parsers, if
the phrases inside it are read in the same way. -/
theorem Routine.run_matching {α : Type} {post : α → Prop}
    {nested : (goal : Goal) → Parser → Option (Outcome goal.Result)}
    (inside : ReadsAlike limit relevant nested) {r : Routine α} {p p' q : Parser}
    {result : Except ParseError α} (regards : r.Regards relevant post)
    (run : r.run nested p = some (result, q)) (same : p.Matching limit relevant p') :
    Repeats limit relevant post p p' result q (r.run nested p') := by
  induction r generalizing p p' with
  | done a =>
      cases run
      exact ⟨p', rfl, .of_scope_eq same rfl rfl, by rintro _ ⟨⟩; exact regards⟩
  | fail e =>
      cases run
      exact ⟨p', rfl, .of_scope_eq same rfl rfl, nofun⟩
  | current go ih =>
      have rest := ih p.token (regards _ same.token_relevant) run same
      rwa [← same.token_eq] at rest
  | next go ih =>
      have rest := ih p.cursor.next (regards _ same.next_relevant) run same
      rwa [← same.next_eq] at rest
  | previous go ih =>
      have rest := ih p.cursor.previous? (regards _) run same
      rwa [← same.previous_eq] at rest
  | advance go ih =>
      exact (@ih p.advance p'.advance regards run same.advance).behind
        (.of_scope_eq same.advance rfl rfl)
  | skipLines go ih =>
      exact (@ih p.skipLines p'.skipLines regards run same.skipLines).behind
        (.of_scope_eq same.skipLines rfl rfl)
  | isLocal name go ih =>
      have rest := ih _ (regards.2 _) run same
      rwa [← same.contains_eq regards.1] at rest
  | declare name go ih =>
      have rest := (@ih _ (p.declare name) (p'.declare name) (regards.2 _) run
        (same.declare name)).behind (.declare same regards.1)
      rwa [← same.contains_eq regards.1] at rest
  | intern name go ih =>
      exact (@ih (p.intern name) (p'.intern name) regards run (same.intern name)).behind
        (.of_scope_eq (same.intern name) rfl rfl)
  | read goal go ih =>
      rw [Routine.run] at run ⊢
      cases found : nested goal p with
      | none => simp [found] at run
      | some outcome =>
          obtain ⟨inner, q₁⟩ := outcome
          rw [found] at run
          obtain ⟨q₁', found', parallel, known⟩ := inside goal p p' q₁ inner regards.1 found same
          rw [found']
          cases inner with
          | error e =>
              obtain ⟨rfl, rfl⟩ := Prod.mk.inj (Option.some.inj run)
              exact ⟨q₁', rfl, parallel, nofun⟩
          | ok a => exact (ih a (regards.2 a (known a rfl)) run parallel.matching).behind parallel

namespace Parser

variable {goal : Goal} {p p' q : Parser} {result : Except ParseError goal.Result}

theorem attempt_matching (limit : Option Nat) (relevant : String → Prop) (fuel : Nat) :
    ReadsAlike limit relevant (attempt limit fuel) := by
  induction fuel with
  | zero => exact fun _ _ _ _ _ _ found => nomatch found
  | succ fuel ih =>
      intro goal p p' q result asked found same
      rw [attempt] at found ⊢
      rcases Goal.around_cases found with ⟨refused, rfl, rfl⟩ | ⟨room, q₁, run, rfl⟩
      · refine ⟨p', ?_, .of_scope_eq same rfl rfl, nofun⟩
        rw [Goal.around_eq, same.isRefused_eq, if_pos refused, ← same.token_eq]
        rfl
      · obtain ⟨q₁', run', parallel, known⟩ :=
          Routine.run_matching ih (Goal.routine_regards asked) run (same.enter goal)
        refine ⟨goal.leave p' q₁', ?_, parallel.leave goal same, known⟩
        exact Goal.around_of_room ((same.isRefused_eq goal).trans room) run'

/-- Matching parsers read the same: they succeed, or fail, in the same way, and declare the
same variables. -/
theorem read_matching (asked : goal.Regards relevant) (found : p.read limit goal = (result, q))
    (same : p.Matching limit relevant p') :
    ∃ q', p'.read limit goal = (result, q') ∧ Parallel limit relevant p p' q q' ∧
      ∀ a, result = .ok a → goal.Relevant relevant a := by
  have attempted := attempt_eq_read limit goal p
  rw [found] at attempted
  obtain ⟨q', attempted', parallel, known⟩ :=
    attempt_matching limit relevant _ goal p p' q result asked attempted same
  exact ⟨q', (eq_read_of_attempt attempted').symm, parallel, known⟩

end Parser

/-! ## Behind any token -/

/-- A routine that moves on at once does the same from parsers that only face the same. -/
theorem Routine.run_facing {α : Type} {post : α → Prop}
    {nested : (goal : Goal) → Parser → Option (Outcome goal.Result)}
    (inside : ReadsAlike limit relevant nested) {r : Routine α} {p p' q : Parser} {a : α}
    (enters : r.Enters) (regards : r.Regards relevant post)
    (run : r.run nested p = some (.ok a, q)) (noEnd : p.token.kind ≠ .eof)
    (same : p.Facing limit relevant p') :
    Repeats limit relevant post p p' (.ok a) q (r.run nested p') := by
  induction r with
  | fail e => cases run
  | current go ih =>
      have rest := ih p.token (enters _) (regards _ same.token_relevant) run
      rwa [← same.token_eq] at rest
  | next go ih =>
      have rest := ih p.cursor.next (enters _) (regards _ same.next_relevant) run
      rwa [← same.next_eq] at rest
  | advance go ih =>
      have behind := same.advance_matching noEnd
      have rest : Repeats limit relevant post p.advance p'.advance (.ok a) q
          (go.run nested p'.advance) := run_matching inside regards run behind
      exact rest.behind (.of_scope_eq behind rfl rfl)
  | _ => exact enters.elim

/-- An expression is read in the same way behind any token. -/
theorem Reads.facing {min : Precedence} {p p' q : Parser} {node : Node}
    (h : Reads limit (.expression min) p node q) (same : p.Facing limit relevant p') :
    ∃ q', Reads limit (.expression min) p' node q' ∧ Parallel limit relevant p p' q q' := by
  cases h with
  | @expression _ form _ p₁ q left _ room leads first rest =>
      have inside : ReadsAlike limit relevant fun goal p => some (p.read limit goal) := by
        intro goal p p' q result asked found same
        obtain ⟨q', found', parallel⟩ := read_matching asked (Option.some.inj found) same
        exact ⟨q', congrArg some found', parallel⟩
      have lines := same.opened.skipLines
      have noEnd : p.opened.skipLines.token.kind ≠ .eof := TokenKind.ne_eof_of_leading leads
      have run : (Grammar.leading form).run (fun goal p => some (p.read limit goal))
          p.opened.skipLines = some (.ok left, p₁) :=
        (read_eq limit (.leading form) _).symm.trans (congrArg some (read_eq_ok_iff.mpr first))
      obtain ⟨p₁', run', parallel, known⟩ := Routine.run_facing inside
        (Grammar.enters_leading form) (Grammar.regards_leading form) run noEnd lines
      have first' : Reads limit (.leading form) p'.opened.skipLines left p₁' :=
        read_eq_ok_iff.mp (Option.some.inj ((read_eq limit (.leading form) _).trans run'))
      have asked : (Goal.continuation left min).Regards relevant := known left rfl
      obtain ⟨q', rest', parallel', -⟩ :=
        read_matching asked (read_eq_ok_iff.mpr rest) parallel.matching
      have leads' : p'.skipLines.token.kind.leading? = some form := by
        rwa [same.skipLines.token_eq]
      refine ⟨q'.closed, .expression (same.isFull_eq.trans room) leads' first'
        (read_eq_ok_iff.mp rest'), ?_⟩
      obtain ⟨behind, declared⟩ := parallel.trans parallel'
      exact .closed ⟨behind, declared⟩

end RubyReader
