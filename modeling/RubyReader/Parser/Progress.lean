/-
# `Progress` — what a phrase may ask for

A goal at a cursor costs five for each token behind the cursor, and a rank
that orders the goals which may ask for each other at the same token:

    rank 0   leading, following
    rank 1   continuation, parameter
    rank 2   expression, parameters, bare parameters
    rank 3   arguments, bare arguments, statements
    rank 4   method

A routine is safe below a bound if every goal that it asks for costs less.
Safety follows a routine step by step (`safe_bind` and the lemmas behind
it), and a safe routine has an outcome wherever the goals below its bound
have one (`run_of_safe`).
-/
import RubyReader.Parser.Basic

namespace RubyReader

/-! ## The cursor moves

There is ever less behind a cursor: a step takes one token away unless it stands at the last
one, which ends the input, and skipping line ends gives none back. -/

namespace Cursor

theorem remaining_advance (c : Cursor) : c.advance.remaining = c.remaining - 1 := by
  unfold advance remaining
  split
  · rename_i h
    simp [h]
  · rename_i h
    simp [h]

theorem remaining_pos {c : Cursor} (h : c.current.kind ≠ .eof) : 0 < c.remaining := by
  obtain ⟨before, current, after, ends⟩ := c
  cases after with
  | nil => exact absurd (by simpa using ends) h
  | cons => simp [remaining]

theorem remaining_advance_of_ne {c : Cursor} (h : c.current.kind ≠ .eof) :
    c.advance.remaining + 1 = c.remaining := by
  have pos := remaining_pos h
  rw [remaining_advance]
  omega

theorem remaining_forward_le (count : Nat) (c : Cursor) :
    (c.forward count).remaining ≤ c.remaining := by
  induction count generalizing c with
  | zero => exact Nat.le_refl _
  | succ count ih =>
    have step := ih c.advance
    rw [remaining_advance] at step
    exact Nat.le_trans step (Nat.sub_le ..)

theorem remaining_skipLines_le (c : Cursor) : c.skipLines.remaining ≤ c.remaining :=
  remaining_forward_le ..

end Cursor

/-! ## What a goal costs, and what it consumes -/

namespace Goal

/-- The place of a goal among those that may be asked for at one token. -/
def rank : Goal → Nat
  | .leading _ | .following .. => 0
  | .continuation .. | .parameter => 1
  | .expression _ | .parameters | .bareParameters => 2
  | .statements _ | .bareArguments | .arguments => 3
  | .method => 4

/-- A bound for the phrases inside each other when a goal is read. -/
def cost (goal : Goal) (c : Cursor) : Nat := 5 * c.remaining + goal.rank

/-- The least number of tokens of a phrase. -/
def least : Goal → Nat
  | .statements _ | .continuation .. | .method => 0
  | _ => 1

/-- From `c` to `c'` a phrase has been read. -/
def Moved (goal : Goal) (c c' : Cursor) : Prop := c'.remaining + goal.least ≤ c.remaining

end Goal

/-! ## Routines that ask for less -/

namespace Routine

/-- A routine, run from a cursor, asks only for goals that cost less than
`bound`, and ends with what `post` says. -/
def Safe {α : Type} (bound : Nat) (post : α → Cursor → Prop) : Routine α → Cursor → Prop
  | .done result, c => post result c
  | .fail _, _ => True
  | .current go, c => Safe bound post (go c.current) c
  | .next go, c => Safe bound post (go c.next) c
  | .previous go, c => Safe bound post (go c.previous?) c
  | .advance go, c => Safe bound post go c.advance
  | .skipLines go, c => Safe bound post go c.skipLines
  | .isLocal _ go, c => ∀ known, Safe bound post (go known) c
  | .declare _ go, c => ∀ new, Safe bound post (go new) c
  | .intern _ go, c => Safe bound post go c
  | .read goal go, c =>
    goal.cost c < bound ∧ ∀ result c', goal.Moved c c' → Safe bound post (go result) c'

variable {α β : Type} {bound : Nat}

theorem safe_bind {post : β → Cursor → Prop} {r : Routine α} {k : α → Routine β} {c : Cursor} :
    (r >>= k).Safe bound post c ↔ r.Safe bound (fun a c' => (k a).Safe bound post c') c := by
  show (r.bind k).Safe bound post c ↔ _
  induction r generalizing c with
  | done => exact Iff.rfl
  | fail => exact Iff.rfl
  | current go ih => exact ih _
  | next go ih => exact ih _
  | previous go ih => exact ih _
  | advance go ih => exact ih
  | skipLines go ih => exact ih
  | isLocal _ go ih => exact forall_congr' fun known => ih known
  | declare _ go ih => exact forall_congr' fun new => ih new
  | intern _ go ih => exact ih
  | read goal go ih =>
    exact and_congr Iff.rfl
      (forall_congr' fun result => forall_congr' fun c' => imp_congr Iff.rfl (ih result))

/-- A routine has an outcome if all that it asks for has one, and it ends
as its safety says. -/
theorem run_of_safe {nested : (goal : Goal) → Parser → Option (Outcome goal.Result)}
    (total : ∀ goal p, goal.cost p.cursor < bound → ∃ result q,
      nested goal p = some (result, q) ∧ ∀ a, result = .ok a → goal.Moved p.cursor q.cursor)
    {post : α → Cursor → Prop} {r : Routine α} {p : Parser} (safe : r.Safe bound post p.cursor) :
    ∃ result q, r.run nested p = some (result, q) ∧ ∀ a, result = .ok a → post a q.cursor := by
  induction r generalizing p with
  | done a => exact ⟨.ok a, p, rfl, fun b e => by cases e; exact safe⟩
  | fail e => exact ⟨.error e, p, rfl, fun b h => by cases h⟩
  | current go ih => exact ih _ safe
  | next go ih => exact ih _ safe
  | previous go ih => exact ih _ safe
  | advance go ih => exact @ih { p with cursor := p.cursor.advance } safe
  | skipLines go ih => exact @ih { p with cursor := p.cursor.skipLines } safe
  | isLocal name go ih => exact ih _ (safe _)
  | declare name go ih =>
    exact @ih _ { p with scope := p.scope.insert name } (safe (!p.scope.contains name))
  | intern name go ih => exact @ih { p with symbols := p.symbols.insert name } safe
  | read goal go ih =>
    obtain ⟨result, q, eq, moved⟩ := total goal p safe.1
    cases result with
    | error e => exact ⟨.error e, q, by simp [run, eq], fun b h => by cases h⟩
    | ok a =>
      obtain ⟨result', q', eq', post'⟩ := ih a (safe.2 a q.cursor (moved a rfl))
      exact ⟨result', q', by simp [run, eq, eq'], post'⟩

/-! ## Safety of the steps that rules are made of

A wanted token is left behind, or nothing is read; one that may be there is left behind only
if it is; and the end of a statement takes nothing back. -/

variable {post : α → Cursor → Prop} {c : Cursor}

theorem safe_pure {a : α} : (pure a : Routine α).Safe bound post c ↔ post a c := Iff.rfl

theorem safe_done {a : α} : (done a).Safe bound post c ↔ post a c := Iff.rfl

theorem safe_unexpected {expected : Expectation} :
    (unexpected expected : Routine α).Safe bound post c ↔ True := Iff.rfl

theorem safe_currentToken {post : Token → Cursor → Prop} :
    currentToken.Safe bound post c ↔ post c.current c := Iff.rfl

theorem safe_nextToken {post : Token → Cursor → Prop} :
    nextToken.Safe bound post c ↔ post c.next c := Iff.rfl

theorem safe_previousToken {post : Option Token → Cursor → Prop} :
    previousToken.Safe bound post c ↔ post c.previous? c := Iff.rfl

theorem safe_step {post : Unit → Cursor → Prop} :
    step.Safe bound post c ↔ post () c.advance := Iff.rfl

theorem safe_skipLineEnds {post : Unit → Cursor → Prop} :
    skipLineEnds.Safe bound post c ↔ post () c.skipLines := Iff.rfl

theorem safe_knows {post : Bool → Cursor → Prop} {name : String} :
    (knows name).Safe bound post c ↔ ∀ known, post known c := Iff.rfl

theorem safe_declareLocal {post : Bool → Cursor → Prop} {name : String} :
    (declareLocal name).Safe bound post c ↔ ∀ new, post new c := Iff.rfl

theorem safe_symbol {post : Symbol → Cursor → Prop} {name : String} :
    (symbol name).Safe bound post c ↔ post ⟨name⟩ c := Iff.rfl

theorem safe_take {post : Token → Cursor → Prop} :
    take.Safe bound post c ↔ post c.current c.advance := Iff.rfl

theorem safe_expression {min : Precedence} {post : Node → Cursor → Prop} :
    (expression min).Safe bound post c ↔
      (Goal.expression min).cost c < bound ∧
        ∀ result c', (Goal.expression min).Moved c c' → post result c' := Iff.rfl

theorem safe_expect {kind : TokenKind} {within : Construct} {post : Token → Cursor → Prop} :
    (expect kind within).Safe bound post c ↔
      (c.current.kind = kind → post c.current c.advance) := by
  unfold expect
  rw [safe_bind, safe_currentToken]
  split
  · rename_i h
    simp [h, safe_take]
  · rename_i h
    simp [h, safe_unexpected]

theorem safe_eat {kind : TokenKind} {post : Bool → Cursor → Prop} :
    (eat kind).Safe bound post c ↔
      if c.current.kind = kind then post true c.advance else post false c := by
  unfold eat
  rw [safe_bind, safe_currentToken]
  split
  · exact Iff.rfl
  · exact Iff.rfl

theorem safe_endStatement {post : Unit → Cursor → Prop}
    (h : ∀ c', c'.remaining ≤ c.remaining → post () c') : endStatement.Safe bound post c := by
  unfold endStatement
  rw [safe_bind, safe_currentToken]
  split
  · exact h _ (Cursor.remaining_skipLines_le c)
  · exact h _ (Nat.le_refl _)
  · exact h _ (Nat.le_refl _)
  · exact trivial

end Routine

end RubyReader
