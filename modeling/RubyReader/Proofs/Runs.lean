/-
# `Runs` — where a parser gets to, whatever it is asked for

Any tokens may be given, ends of the input in the midst of them or none at all, and any
steps may be made on them, after failed ones too.  All the time the parser stands at one
of the tokens, and never behind the first end of the input; it never goes back; no more
expressions are open than may be, and none between two steps (`steps_on_course`).  A step
that succeeds has got where it should (`Step.Accomplishes`), and what stands behind the
first end of the input makes no difference to any step.
-/
import Mathlib
import RubyReader.Proofs.Reading.Steps
import RubyReader.Proofs.Reading.Transfer

namespace RubyReader

/-! ## The first end of the input -/

theorem Cursor.firstEnd_lt (c : Cursor) : firstEnd c.tokens < c.tokens.length := by
  refine List.findIdx_lt_length_of_exists ⟨_, ?_, decide_eq_true c.ends⟩
  rw [Cursor.tokens_eq]
  exact List.mem_append_right _ (List.getLast_mem _)

/-- Up to the first end of the input the tokens may go on in any way. -/
theorem Cursor.take_tokens_ofTokens (c : Cursor) (more : List Token) :
    (ofTokens (c.tokens.take (firstEnd c.tokens + 1) ++ more)).tokens.take (firstEnd c.tokens + 1)
      = c.tokens.take (firstEnd c.tokens + 1) := by
  obtain ⟨ending, all, -⟩ := exists_tokens_ofTokens (c.tokens.take (firstEnd c.tokens + 1) ++ more)
  have length : (c.tokens.take (firstEnd c.tokens + 1)).length = firstEnd c.tokens + 1 :=
    List.length_take_of_le c.firstEnd_lt
  rw [all, List.append_assoc, List.take_left' length]

/-! ## Where steps that succeed get to -/

/-- A token that continues expressions but starts no form is a colon. -/
theorem Token.colon_of_precedence {token : Token} (tighter : Precedence.lowest < token.precedence)
    (none : token.kind.following? = none) : token.kind = .colon := by
  unfold precedence at tighter
  cases kind : token.kind <;> simp only [kind] at tighter none <;>
    first | rfl | exact absurd tighter (by decide) | cases none

/-- Whether an expression at some precedence ends in front of a token. -/
def Token.Stops (min : Precedence) (token : Token) : Prop :=
  ¬ min < token.precedence ∨ token.kind = .colon

theorem Reads.continuation_stops {limit : Option Nat} {goal : Goal} {a : goal.Result}
    {p q : Parser} (h : Reads limit goal p a q) {left : Node} {min : Precedence}
    (continues : goal = .continuation left min) : q.token.Stops min := by
  induction h generalizing left with
  | longer _ _ _ _ _ ih =>
      cases continues
      exact ih rfl
  | complete stops =>
      cases continues
      rename_i p _
      by_cases tighter : min < p.token.precedence
      · have above := Nat.lt_of_le_of_lt (Nat.zero_le _) tighter
        exact .inr (Token.colon_of_precedence above (stops tighter))
      · exact .inl tighter
  | _ => cases continues

theorem Reads.expression_stops {limit : Option Nat} {node : Node} {min : Precedence}
    {p q : Parser} (h : Reads limit (.expression min) p node q) : q.token.Stops min := by
  cases h with
  | expression _ _ _ rest => exact rest.continuation_stops rfl

theorem Reads.index_lt {limit : Option Nat} {goal : Goal} {a : goal.Result} {p q : Parser}
    (h : Reads limit goal p a q) (some : goal.least = 1) : p.cursor.index < q.cursor.index := by
  have all (c : Cursor) : c.tokens.length = c.index + c.remaining + 1 := by
    simp [Cursor.tokens, Cursor.index, Cursor.remaining, Nat.add_assoc]
  have moved : q.cursor.remaining + goal.least ≤ p.cursor.remaining := h.moved
  have same := congrArg List.length h.tokens_eq
  rw [all, all] at same
  omega

namespace Parser

/-- Where a step from one parser to another has got to, if it has succeeded: an expression
has read a token at least, and stops in front of one that it does not go on with; a program
stops at the first end of the input. -/
def Step.Accomplishes (p q : Parser) : Step → Prop
  | .program => q.token.kind = .eof ∧ q.cursor.index = firstEnd q.cursor.tokens
  | .expression min => p.cursor.index < q.cursor.index ∧ q.token.Stops min

/-- A step that succeeds accomplishes what it should. -/
theorem perform_accomplishes {caller : Names} {p : Parser} {step : Step} {node : Node}
    {start : Cursor} (first : start.before = []) (onward : start.Onward p.cursor)
    (done : (p.perform caller step).result = .ok node) :
    step.Accomplishes p (p.perform caller step).parser := by
  have on := onward.trans (perform_onward caller p step)
  cases step with
  | program =>
      obtain ⟨nodes, -, reads⟩ := program_eq_ok_iff.mp (Prod.ext done rfl)
      have eof : (p.perform caller .program).parser.token.kind = .eof :=
        reads.statements_end.elim id id
      refine ⟨eof, ?_⟩
      rw [on.tokens_eq]
      exact on.index_eq_firstEnd first eof
  | expression min =>
      have reads : Reads (some nestingLimit) (.expression min) (p.withScope caller) node
        ((p.withScope caller).read (some nestingLimit) (.expression min)).2 :=
        read_eq_ok_iff.mp (Prod.ext done rfl)
      exact ⟨reads.index_lt rfl, reads.expression_stops⟩

/-! ## Any steps on any tokens -/

variable (tokens : List Token) (scope symbols : Names) (steps : List (Step × Names))

/-- At every moment of some steps the cursor stands at one of the tokens, not behind the
first end of the input, and no more expressions are open than may be. -/
theorem history_bounds {m : Parser} (mem : m ∈ (ofTokens tokens scope symbols).history steps) :
    m.cursor.tokens = (Cursor.ofTokens tokens).tokens ∧
      (Cursor.ofTokens tokens).tokens[m.cursor.index]? = some m.token ∧
      m.cursor.index ≤ firstEnd (Cursor.ofTokens tokens).tokens ∧ m.depth ≤ nestingLimit := by
  have onward : (Cursor.ofTokens tokens).Onward m.cursor :=
    ((history_passage _ steps).of_mem mem).1
  refine ⟨onward.tokens_eq, ?_, onward.index_le_firstEnd Cursor.before_ofTokens,
    history_allowed (Nat.zero_le _) mem⟩
  rw [← onward.tokens_eq]
  exact m.cursor.getElem?_index

/-- Behind the first end of the input other tokens make no difference to a step. -/
theorem perform_of_front (step : Step) (caller : Names) (more : List Token) :
    let all := (Cursor.ofTokens tokens).tokens
    let outcome := ((ofTokens tokens scope symbols).after steps).perform caller step
    let outcome' := ((ofTokens (all.take (firstEnd all + 1) ++ more) scope symbols).after
      steps).perform caller step
    outcome'.result = outcome.result ∧ outcome'.scope = outcome.scope ∧
      outcome'.parser.cursor.index = outcome.parser.cursor.index ∧
      outcome'.parser.scope = outcome.parser.scope ∧
      outcome'.parser.symbols = outcome.parser.symbols := by
  intro all outcome outcome'
  let start := ofTokens tokens scope symbols
  have bound (steps : List (Step × Names)) : (start.after steps).cursor.index ≤ firstEnd all :=
    (after_onward start steps).index_le_firstEnd Cursor.before_ofTokens
  have agree := agree_ofTokens scope symbols
    (Cursor.take_tokens_ofTokens (Cursor.ofTokens tokens) more)
  have le : outcome.parser.cursor.index ≤ firstEnd all := by
    have le := bound (steps ++ [(step, caller)])
    rwa [after_concat] at le
  obtain ⟨result, callers, behind⟩ := perform_agree (after_agree agree (bound steps)) le
  exact ⟨result, callers, behind.cursor.index_eq, behind.scope_eq, behind.symbols_eq⟩

/-- Any steps keep the cursor and the count of open expressions on course, those after a
failed one too, and what stands behind the first end of the input does not matter to them. -/
theorem steps_on_course (step : Step) (caller : Names) :
    let start := ofTokens tokens scope symbols
    let all := start.cursor.tokens
    let p := start.after steps
    let outcome := p.perform caller step
    let moments := start.history (steps ++ [(step, caller)])
    (∀ m ∈ moments, m.cursor.tokens = all ∧ all[m.cursor.index]? = some m.token ∧
      m.cursor.index ≤ firstEnd all ∧ m.depth ≤ nestingLimit) ∧
    moments.Pairwise (fun m m' => m.cursor.index ≤ m'.cursor.index) ∧
    p.depth = 0 ∧ outcome.parser.depth = 0 ∧
    (∀ node, outcome.result = .ok node → step.Accomplishes p outcome.parser) ∧
    ∀ more,
      let start' := ofTokens (all.take (firstEnd all + 1) ++ more) scope symbols
      let outcome' := (start'.after steps).perform caller step
      outcome'.result = outcome.result ∧ outcome'.scope = outcome.scope ∧
        outcome'.parser.cursor.index = outcome.parser.cursor.index ∧
        outcome'.parser.scope = outcome.parser.scope ∧
        outcome'.parser.symbols = outcome.parser.symbols := by
  intro start all p outcome moments
  have closed : p.depth = 0 := depth_after start steps
  refine ⟨fun m => history_bounds tokens scope symbols _, ?_, closed, ?_, ?_,
    perform_of_front tokens scope symbols steps step caller⟩
  · exact (history_passage start _).pairwise.imp Cursor.Onward.index_le
  · exact (depth_perform caller p step).trans closed
  · intro node done
    exact perform_accomplishes Cursor.before_ofTokens (after_onward start steps) done

/-- The tokens of `( 1 2`, without an end of the input. -/
def openGroup : List Token :=
  [⟨.lparen, "(", ⟨1, 1⟩, false⟩, ⟨.integer, "1", ⟨1, 3⟩, false⟩, ⟨.integer, "2", ⟨1, 5⟩, false⟩]

/-- A program fails there at the second number, when two expressions are open, and an
expression that is read next moves on from it. -/
theorem steps_on_course_of_openGroup :
    let start := ofTokens openGroup .empty .empty
    let p := start.after [(.program, .empty)]
    let outcome := p.perform .empty (.expression .lowest)
    p.cursor.index = 2 ∧ outcome.result = .ok (.literal (.int 2) ⟨1, 5⟩) ∧
      2 < outcome.parser.cursor.index ∧ outcome.parser.token.Stops .lowest ∧
      ∃ m ∈ start.history [(.program, .empty), (.expression .lowest, .empty)],
        m.depth = 2 ∧ m.depth ≤ nestingLimit := by
  have index : ((ofTokens openGroup .empty .empty).after [(.program, .empty)]).cursor.index = 2 :=
    by cbv
  have read : (((ofTokens openGroup .empty .empty).after [(.program, .empty)]).perform .empty
      (.expression .lowest)).result = .ok (.literal (.int 2) ⟨1, 5⟩) := by cbv
  have deep : ((ofTokens openGroup .empty .empty).history
      [(.program, .empty), (.expression .lowest, .empty)]).any (fun m => m.depth == 2) = true := by
    cbv
  have course := steps_on_course openGroup .empty .empty [(.program, .empty)]
    (.expression .lowest) .empty
  obtain ⟨moved, stops⟩ := course.2.2.2.2.1 _ read
  obtain ⟨m, mem, depth⟩ := List.any_eq_true.mp deep
  have bounds := course.1 m mem
  refine ⟨index, read, ?_, stops, m, mem, eq_of_beq depth, bounds.2.2.2⟩
  rwa [index] at moved

end Parser

end RubyReader
