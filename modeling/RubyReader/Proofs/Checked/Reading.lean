/-
# `Reading` — a parser that holds an index

A cursor is never off its tokens.  An index may be, so a parser that has nothing but the
list of its tokens and the index of one must look before it takes a token:

    current    the token at the index, or the last one
    next       the one behind it, or the last one
    previous   the one before it, unless the index is zero
    advance    the next index, unless there is none

There is no outcome where an index, a difference or a cut is outside its domain.  From the
index of a cursor each of these is what the cursor says, so rules do the same with both
(`Routine.runAt?_eq`), and no phrase ever leaves a domain (`Indexed.attempt?_eq`).
-/
import RubyReader.Parser.Steps
import RubyReader.Proofs.Checked.Slices
import RubyReader.Proofs.Reading.Around
import RubyReader.Proofs.Reading.Onward

namespace RubyReader

/-! ## Parsers with an index

Where no token is behind the index it is taken back to the last one, so looking ahead always
finds a token: the one that a cursor at this index has behind it. -/

/-- A parser between two steps, which stands at an index of its tokens. -/
structure Indexed where
  tokens : List Token
  index : Nat
  scope : Names
  symbols : Names
  /-- the number of expressions that are open -/
  depth : Nat

/-- A parser with the index of its cursor. -/
def Parser.indexed (p : Parser) : Indexed :=
  ⟨p.cursor.tokens, p.cursor.index, p.scope, p.symbols, p.depth⟩

namespace Indexed

/-- The greatest index. -/
def last? (s : Indexed) : Option Nat := minus? s.tokens.length 1

/-- The token at the index, which is taken back to the last one. -/
def current? (s : Indexed) : Option Token := s.last?.bind fun last => s.tokens[min s.index last]?

def next? (s : Indexed) : Option Token :=
  s.last?.bind fun last => s.tokens[min (s.index + 1) last]?

def previous? (s : Indexed) : Option (Option Token) :=
  match minus? s.index 1 with
  | none => some none
  | some index => s.tokens[index]?.map some

def advance? (s : Indexed) : Option Indexed :=
  s.last?.map fun last => if s.index < last then { s with index := s.index + 1 } else s

/-- Moves past the line ends at the index, of which there must be fewer than `most`. -/
def skipLines? : (most : Nat) → Indexed → Option Indexed
  | 0, _ => none
  | most + 1, s =>
    s.current?.bind fun token =>
      if token.kind = .newline then s.advance?.bind (skipLines? most) else some s

end Indexed

namespace Cursor

variable (c : Cursor)

theorem length_tokens : c.tokens.length = c.index + c.remaining + 1 := by
  rw [tokens_eq, List.length_append, List.length_reverse, length_upcoming]
  rfl

theorem getElem?_ahead : c.tokens[min (c.index + 1) (c.index + c.remaining)]? = some c.next := by
  obtain ⟨before, current, after, ends⟩ := c
  cases after with
  | nil => simp [tokens, index, remaining, next]
  | cons token rest => simp [tokens, index, remaining, next]

theorem getElem?_behind {index : Nat} (h : c.index = index + 1) :
    c.tokens[index]?.map some = some c.previous? := by
  obtain ⟨before, current, after, ends⟩ := c
  cases before with
  | nil => cases h
  | cons token rest =>
      obtain rfl : rest.length = index := Nat.succ.inj h
      simp [tokens, previous?]

/-- A step leads to the next index as long as there is one. -/
theorem index_step : c.advance.index = if 0 < c.remaining then c.index + 1 else c.index := by
  obtain ⟨before, current, after, ends⟩ := c
  cases after with
  | nil => rfl
  | cons token rest => rfl

end Cursor

namespace Parser

variable (p : Parser)

theorem last?_indexed : p.indexed.last? = some (p.cursor.index + p.cursor.remaining) := by
  have length : p.indexed.tokens.length = p.cursor.index + p.cursor.remaining + 1 :=
    p.cursor.length_tokens
  rw [Indexed.last?, length, minus?_of_le (Nat.le_add_left ..), Nat.add_sub_cancel]

theorem current?_indexed : p.indexed.current? = some p.token := by
  have within : min p.indexed.index (p.cursor.index + p.cursor.remaining) = p.cursor.index :=
    Nat.min_eq_left (Nat.le_add_right ..)
  rw [Indexed.current?, last?_indexed, Option.bind_some, within]
  exact p.cursor.getElem?_index

theorem next?_indexed : p.indexed.next? = some p.cursor.next := by
  rw [Indexed.next?, last?_indexed, Option.bind_some]
  exact p.cursor.getElem?_ahead

theorem previous?_indexed : p.indexed.previous? = some p.cursor.previous? := by
  have index : p.indexed.index = p.cursor.index := rfl
  rw [Indexed.previous?, index]
  cases first : p.cursor.index with
  | zero =>
      rw [Cursor.previous?, List.eq_nil_of_length_eq_zero first]
      rfl
  | succ index => exact p.cursor.getElem?_behind first

theorem advance?_indexed : p.indexed.advance? = some p.advance.indexed := by
  rw [Indexed.advance?, last?_indexed, Option.map_some]
  simp only [indexed, cursor_advance, Cursor.tokens_advance, Cursor.index_step,
    Nat.lt_add_right_iff_pos]
  split
  · rfl
  · rfl

/-- There are fewer line ends at a cursor than tokens behind it. -/
theorem skipLines?_indexed {most : Nat} (enough : p.cursor.remaining < most) :
    p.indexed.skipLines? most = some p.skipLines.indexed := by
  induction p using lines_induction generalizing most with
  | stop p other =>
      obtain ⟨most, rfl⟩ := Nat.exists_eq_add_one_of_ne_zero (Nat.ne_zero_of_lt enough)
      rw [Indexed.skipLines?, current?_indexed, Option.bind_some, if_neg other,
        skipLines_of_ne other]
  | step p newline ih =>
      obtain ⟨most, rfl⟩ := Nat.exists_eq_add_one_of_ne_zero (Nat.ne_zero_of_lt enough)
      have left := Cursor.remaining_advance_of_ne (c := p.cursor) (by
        rw [show p.cursor.current.kind = .newline from newline]
        nofun)
      have fewer : p.advance.cursor.remaining < most := by
        rw [cursor_advance]
        omega
      rw [Indexed.skipLines?, current?_indexed, Option.bind_some, if_pos newline,
        advance?_indexed, Option.bind_some, ih fewer, ← skipLines_of_newline newline]

end Parser

/-! ## Rules -/

/-- What an indexed parser has read, or why it could not, and the parser afterwards; none if
anything was outside its domain. -/
abbrev Indexed.Outcome? (α : Type) : Type := Option (Except ParseError α × Indexed)

/-- Runs a routine, with a reader for the phrases that it asks for. -/
def Routine.runAt? {α : Type} (nested : (goal : Goal) → Indexed → Indexed.Outcome? goal.Result) :
    Routine α → Indexed → Indexed.Outcome? α
  | .done result, s => some (.ok result, s)
  | .fail error, s => some (.error error, s)
  | .current go, s => s.current?.bind fun token => runAt? nested (go token) s
  | .next go, s => s.next?.bind fun token => runAt? nested (go token) s
  | .previous go, s => s.previous?.bind fun token? => runAt? nested (go token?) s
  | .advance go, s => s.advance?.bind fun s => runAt? nested go s
  | .skipLines go, s => (s.skipLines? s.tokens.length).bind fun s => runAt? nested go s
  | .isLocal name go, s => runAt? nested (go (s.scope.contains name)) s
  | .declare name go, s =>
    runAt? nested (go (!s.scope.contains name)) { s with scope := s.scope.insert name }
  | .intern name go, s => runAt? nested go { s with symbols := s.symbols.insert name }
  | .read goal go, s =>
    match nested goal s with
    | none => none
    | some (.error error, t) => some (.error error, t)
    | some (.ok result, t) => runAt? nested (go result) t

/-- A signed number behind an operand, which is taken and cut into its sign and its digits. -/
def Grammar.signedParts (left : Node) (token : Token) (sign digits : String) : Routine Node := do
  Routine.step
  let value ← numeral token digits
  let message ← Routine.symbol sign
  let right ← Routine.phrase (.continuation (.literal value token.position) .sum)
  pure (.call left message [right] token.position)

/-- The rule of a goal at a token; the text of a signed number is cut behind its first byte. -/
def Goal.routine? : (goal : Goal) → Token → Option (Routine goal.Result)
  | .following .signedNumber left, token =>
    if token.signed then
      (splitBytes? 1 token.literal.toList).map fun (sign, digits) =>
        Grammar.signedParts left token (String.ofList sign) (String.ofList digits)
    else some (Grammar.signedNumber left)
  | goal, _ => some goal.routine

/-- A phrase as read by `body`, inside what its goal puts around it. -/
def Goal.around? (limit : Option Nat) :
    (goal : Goal) → (body : Indexed → Indexed.Outcome? goal.Result) → Indexed →
      Indexed.Outcome? goal.Result
  | .expression _, body, s =>
    if limit.any fun most => most ≤ s.depth then
      s.current?.map fun token => (.error (.malformed (.blame .nestedTooDeeply token)), s)
    else
      (body { s with depth := s.depth + 1 }).bind fun (result, t) =>
        (minus? t.depth 1).map fun depth => (result, { t with depth })
  | .method, body, s =>
    (body { s with scope := .empty }).map fun (result, t) => (result, { t with scope := s.scope })
  | .leading _, body, s | .following .., body, s | .continuation .., body, s
  | .statements _, body, s | .bareArguments, body, s | .arguments, body, s
  | .parameter, body, s | .parameters, body, s | .bareParameters, body, s => body s

namespace Indexed

def attempt? (limit : Option Nat) : (fuel : Nat) → (goal : Goal) → Indexed → Outcome? goal.Result
  | 0, _, _ => none
  | fuel + 1, goal, s =>
    goal.around? limit (fun t =>
      t.current?.bind fun token =>
        (goal.routine? token).bind fun rule => rule.runAt? (attempt? limit fuel) t) s

end Indexed

/-! ## Both parsers do the same -/

/-- The second parser has the tokens of the first, and as many expressions open. -/
structure Parser.Kept (p q : Parser) : Prop where
  tokens_eq : q.cursor.tokens = p.cursor.tokens
  depth_eq : q.depth = p.depth

theorem Parser.Kept.trans {p q p' : Parser} (h : p.Kept q) (h' : q.Kept p') : p.Kept p' :=
  ⟨h'.tokens_eq.trans h.tokens_eq, h'.depth_eq.trans h.depth_eq⟩

/-- A rule does the same with a cursor and with an index, if the phrases inside it do. -/
theorem Routine.runAt?_eq {α : Type} {tokens : List Token}
    {nested : (goal : Goal) → Parser → Option (Outcome goal.Result)}
    {nested? : (goal : Goal) → Indexed → Indexed.Outcome? goal.Result}
    (same : ∀ goal p result q, p.cursor.tokens = tokens → nested goal p = some (result, q) →
      nested? goal p.indexed = some (result, q.indexed) ∧ p.Kept q)
    {r : Routine α} {p q : Parser} {result : Except ParseError α} (here : p.cursor.tokens = tokens)
    (run : r.run nested p = some (result, q)) :
    r.runAt? nested? p.indexed = some (result, q.indexed) ∧ p.Kept q := by
  induction r generalizing p with
  | done =>
      cases run
      exact ⟨rfl, rfl, rfl⟩
  | fail =>
      cases run
      exact ⟨rfl, rfl, rfl⟩
  | current go ih =>
      rw [runAt?, Parser.current?_indexed]
      exact ih _ here run
  | next go ih =>
      rw [runAt?, Parser.next?_indexed]
      exact ih _ here run
  | previous go ih =>
      rw [runAt?, Parser.previous?_indexed]
      exact ih _ here run
  | advance go ih =>
      have step : p.Kept p.advance := ⟨Cursor.tokens_advance, rfl⟩
      obtain ⟨runs, kept⟩ := ih (step.tokens_eq.trans here) run
      rw [runAt?, Parser.advance?_indexed]
      exact ⟨runs, step.trans kept⟩
  | skipLines go ih =>
      have step : p.Kept p.skipLines := ⟨Cursor.tokens_skipLines, rfl⟩
      have enough : p.cursor.remaining < p.indexed.tokens.length := by
        show p.cursor.remaining < p.cursor.tokens.length
        rw [Cursor.length_tokens]
        omega
      obtain ⟨runs, kept⟩ := ih (step.tokens_eq.trans here) run
      rw [runAt?, Parser.skipLines?_indexed p enough]
      exact ⟨runs, step.trans kept⟩
  | isLocal name go ih => exact ih _ here run
  | declare name go ih =>
      have step : p.Kept (p.declare name) := ⟨rfl, rfl⟩
      obtain ⟨runs, kept⟩ := @ih _ (p.declare name) here run
      exact ⟨runs, step.trans kept⟩
  | intern name go ih =>
      have step : p.Kept (p.intern name) := ⟨rfl, rfl⟩
      obtain ⟨runs, kept⟩ := @ih (p.intern name) here run
      exact ⟨runs, step.trans kept⟩
  | read goal go ih =>
      rw [Routine.run] at run
      rw [runAt?]
      cases found : nested goal p with
      | none => simp [found] at run
      | some outcome =>
          obtain ⟨inner, p'⟩ := outcome
          obtain ⟨inside, step⟩ := same goal p inner p' here found
          rw [found] at run
          rw [inside]
          cases inner with
          | error e =>
              obtain ⟨rfl, rfl⟩ := Prod.mk.inj (Option.some.inj run)
              exact ⟨rfl, step⟩
          | ok a =>
              obtain ⟨runs, kept⟩ := ih a (step.tokens_eq.trans here) run
              exact ⟨runs, step.trans kept⟩

/-- A token that is signed begins with its sign. -/
def Token.BeginsSigned (token : Token) : Prop :=
  token.signed = true → startsWithSign token.literal = true

theorem Token.exists_sign {text : String} (h : startsWithSign text = true) :
    ∃ sign digits, text.toList = sign :: digits ∧ sign.utf8Size = 1 := by
  unfold startsWithSign at h
  split at h
  · rename_i sign digits chars
    refine ⟨sign, digits, chars, ?_⟩
    simp only [Bool.or_eq_true, decide_eq_true_eq] at h
    rcases h with rfl | rfl
    · rfl
    · rfl
  · cases h

open Grammar in
/-- A signed number is read as it is when it has been cut. -/
theorem Grammar.run_signedParts {p : Parser} {sign : Char} {digits : List Char} (left : Node)
    (signed : p.token.signed = true) (chars : p.token.literal.toList = sign :: digits)
    (nested : (goal : Goal) → Parser → Option (Outcome goal.Result)) :
    (signedParts left p.token (String.ofList [sign]) (String.ofList digits)).run nested p
      = (signedNumber left).run nested p := by
  have cut : splitFirst p.token.literal = (String.ofList [sign], String.ofList digits) := by
    rw [splitFirst, chars]
    exact congrArg (·, String.ofList digits) String.singleton_eq_ofList
  have taken : (signedNumber left).run nested p
      = (signedParts left p.token (splitFirst p.token.literal).1 (splitFirst p.token.literal).2).run
          nested p := by
    show (if p.token.signed = true then _ else _ : Routine Node).run nested p.advance = _
    rw [if_pos signed]
    rfl
  rw [taken, cut]

namespace Goal

variable {limit : Option Nat} {goal : Goal} {p q : Parser}

/-- At a token that begins with its sign the rule of a goal can be cut, and does the same. -/
theorem exists_routine? (goal : Goal) (begins : p.token.BeginsSigned) :
    ∃ rule, goal.routine? p.token = some rule ∧
      ∀ nested, rule.run nested p = goal.routine.run nested p := by
  have uncut (other : goal.routine? p.token = some goal.routine) :
      ∃ rule, goal.routine? p.token = some rule ∧
        ∀ nested, rule.run nested p = goal.routine.run nested p :=
    ⟨goal.routine, other, fun _ => rfl⟩
  cases goal with
  | following form left =>
      cases form with
      | signedNumber =>
          by_cases signed : p.token.signed = true
          · obtain ⟨sign, digits, chars, one⟩ := Token.exists_sign (begins signed)
            refine ⟨_, ?_, Grammar.run_signedParts left signed chars⟩
            rw [routine?, if_pos signed, chars, splitBytes?_one one]
            rfl
          · exact uncut (if_neg signed)
      | _ => exact uncut rfl
  | _ => exact uncut rfl

/-- What is put around a phrase closes only what it has opened. -/
theorem around?_of_room {body : Indexed → Indexed.Outcome? goal.Result}
    {result : Except ParseError goal.Result} (room : goal.isRefused limit p = false)
    (run : body (goal.enter p).indexed = some (result, q.indexed))
    (kept : (goal.enter p).Kept q) :
    goal.around? limit body p.indexed = some (result, (goal.leave p q).indexed) := by
  cases goal with
  | expression min =>
      have free : (limit.any fun most => decide (most ≤ p.indexed.depth)) = false := room
      have opened : 1 ≤ q.indexed.depth := by
        show 1 ≤ q.depth
        rw [kept.depth_eq]
        exact Nat.le_add_left ..
      have inside : body { p.indexed with depth := p.indexed.depth + 1 }
          = some (result, q.indexed) := run
      rw [around?, free, if_neg Bool.false_ne_true, inside, Option.bind_some]
      simp only [minus?_of_le opened]
      rfl
  | method =>
      have inside : body { p.indexed with scope := .empty } = some (result, q.indexed) := run
      rw [around?, inside]
      rfl
  | _ => exact run

/-- An expression too many is refused at the current token. -/
theorem around?_of_refused {body : Indexed → Indexed.Outcome? goal.Result}
    (refused : goal.isRefused limit p = true) :
    goal.around? limit body p.indexed
      = some (.error (.malformed (.blame .nestedTooDeeply p.token)), p.indexed) := by
  cases goal with
  | expression min =>
      have full : (limit.any fun most => decide (most ≤ p.indexed.depth)) = true := refused
      rw [around?, full, if_pos rfl, Parser.current?_indexed]
      rfl
  | _ => cases refused

/-- What is put around a phrase keeps what its rule keeps. -/
theorem kept_leave (kept : (goal.enter p).Kept q) : p.Kept (goal.leave p q) := by
  refine ⟨?_, goal.depth_leave kept.depth_eq⟩
  rw [cursor_leave, kept.tokens_eq, cursor_enter]

end Goal

namespace Indexed

variable {tokens : List Token} {limit : Option Nat} {goal : Goal} {p q : Parser}

/-- A phrase is read with an index as it is with a cursor, if signs are where they should be. -/
theorem attempt?_eq (signs : ∀ token ∈ tokens, token.BeginsSigned) {fuel : Nat}
    {result : Except ParseError goal.Result} (here : p.cursor.tokens = tokens)
    (found : p.attempt limit fuel goal = some (result, q)) :
    attempt? limit fuel goal p.indexed = some (result, q.indexed) ∧ p.Kept q := by
  induction fuel generalizing goal p q with
  | zero => cases found
  | succ fuel ih =>
      rcases Goal.around_cases found with ⟨refused, rfl, rfl⟩ | ⟨room, q', run, rfl⟩
      · exact ⟨Goal.around?_of_refused refused, rfl, rfl⟩
      · have here' : (goal.enter p).cursor.tokens = tokens := by rw [Goal.cursor_enter, here]
        have begins : (goal.enter p).token.BeginsSigned :=
          signs _ (here' ▸ List.mem_of_getElem? (goal.enter p).cursor.getElem?_index)
        obtain ⟨rule, cut, same⟩ := goal.exists_routine? begins
        rw [← same] at run
        obtain ⟨runs, kept⟩ := Routine.runAt?_eq (fun goal p result q here => ih here) here' run
        refine ⟨Goal.around?_of_room room ?_ kept, Goal.kept_leave kept⟩
        rw [Parser.current?_indexed, Option.bind_some, cut, Option.bind_some, runs]

def read? (limit : Option Nat) (goal : Goal) (s : Indexed) : Outcome? goal.Result :=
  attempt? limit (5 * s.tokens.length + goal.rank) goal s

theorem read?_eq (signs : ∀ token ∈ p.cursor.tokens, token.BeginsSigned) :
    read? limit goal p.indexed = some ((p.read limit goal).1, (p.read limit goal).2.indexed) := by
  have enough : goal.cost p.cursor + 1 ≤ 5 * p.indexed.tokens.length + goal.rank := by
    have length : p.indexed.tokens.length = p.cursor.index + p.cursor.remaining + 1 :=
      p.cursor.length_tokens
    rw [Goal.cost, length]
    omega
  have found := Parser.attempt_mono enough (Parser.attempt_eq_read limit goal p)
  exact (attempt?_eq signs rfl found).1

def program? (s : Indexed) : Outcome? Node :=
  s.current?.bind fun first =>
    (s.read? (some nestingLimit) (.statements .eof)).map fun (result, t) =>
      (result.map fun statements => .block statements first.position, t)

/-- Reading a program leaves no domain. -/
theorem program?_eq (signs : ∀ token ∈ p.cursor.tokens, token.BeginsSigned) :
    program? p.indexed = some (p.program.1, p.program.2.indexed) := by
  rw [program?, Parser.current?_indexed, Option.bind_some, read?_eq signs, Option.map_some,
    Parser.program, Parser.programWithin]
  obtain ⟨result, q⟩ := p.read (some nestingLimit) (.statements .eof)
  cases result with
  | ok statements => rfl
  | error e => rfl

end Indexed

end RubyReader
