/-
# `Moments` — everything that a parser goes through

A run of the parser is more than its outcome: between its first and its last parser lie
those in the middle of every phrase, of phrases that fail too.  `moments` lists them in the
order in which they come, one before and one behind every move, so what holds of all of
them holds at every moment of the run:

    Passage    each moment is onward from the one before it
    Journey    at none of them are more expressions open than may be, and as many
               are open behind the phrase as before it

A rule makes a journey if the phrases inside it do (`Routine.journey`), so every phrase
does (`read_journey`).
-/
import RubyReader.Proofs.Reading.Around
import RubyReader.Proofs.Reading.Heeds
import RubyReader.Proofs.Reading.Onward

namespace RubyReader

/-! ## Moments of a run -/

/-- The parsers that a routine goes through, with a reader for the phrases that it asks
for and with the parsers that are gone through for these. -/
def Routine.moments {α : Type} (nested : (goal : Goal) → Parser → Option (Outcome goal.Result))
    (inside : Goal → Parser → List Parser) : Routine α → Parser → List Parser
  | .done _, p => [p]
  | .fail _, p => [p]
  | .current go, p => moments nested inside (go p.token) p
  | .next go, p => moments nested inside (go p.cursor.next) p
  | .previous go, p => moments nested inside (go p.cursor.previous?) p
  | .advance go, p => p :: moments nested inside go p.advance
  | .skipLines go, p => p :: moments nested inside go p.skipLines
  | .isLocal name go, p => moments nested inside (go (p.scope.contains name)) p
  | .declare name go, p =>
    p :: moments nested inside (go (!p.scope.contains name)) (p.declare name)
  | .intern name go, p => p :: moments nested inside go (p.intern name)
  | .read goal go, p =>
    inside goal p ++
      match nested goal p with
      | some (.ok result, q) => moments nested inside (go result) q
      | _ => []

namespace Parser

/-- The parsers that are gone through while a phrase is read with some fuel, the first
one and the last one among them. -/
def momentsWithin (limit : Option Nat) : Nat → Goal → Parser → List Parser
  | 0, _, _ => []
  | fuel + 1, goal, p =>
    let inside := goal.routine.moments (attempt limit fuel) (momentsWithin limit fuel)
    p :: ((if goal.isRefused limit p then [] else inside (goal.enter p))
      ++ (attempt limit (fuel + 1) goal p).toList.map Prod.snd)

/-- The parsers that are gone through while a phrase is read. -/
def moments (limit : Option Nat) (goal : Goal) (p : Parser) : List Parser :=
  momentsWithin limit (goal.cost p.cursor + 1) goal p

end Parser

/-! ## The way from one cursor to another -/

/-- Moments on the way from one cursor to another, each onward from the one before it. -/
inductive Passage : Cursor → List Parser → Cursor → Prop
  | done {c c' : Cursor} : c.Onward c' → Passage c [] c'
  | cons {c c' : Cursor} {m : Parser} {ms : List Parser} :
      c.Onward m.cursor → Passage m.cursor ms c' → Passage c (m :: ms) c'

namespace Passage

variable {c c' c'' : Cursor} {ms more : List Parser}

theorem onward (h : Passage c ms c') : c.Onward c' := by
  induction h with
  | done on => exact on
  | cons on _ ih => exact on.trans ih

theorem behind (on : c.Onward c') (h : Passage c' ms c'') : Passage c ms c'' := by
  cases h with
  | done on' => exact .done (on.trans on')
  | cons on' rest => exact .cons (on.trans on') rest

theorem append (h : Passage c ms c') (h' : Passage c' more c'') : Passage c (ms ++ more) c'' := by
  induction h with
  | done on => exact h'.behind on
  | cons on _ ih => exact .cons on (ih h')

theorem of_mem {m : Parser} (h : Passage c ms c') (mem : m ∈ ms) :
    c.Onward m.cursor ∧ m.cursor.Onward c' := by
  induction h with
  | done on => cases mem
  | cons on rest ih =>
      rcases List.mem_cons.mp mem with rfl | mem
      · exact ⟨on, rest.onward⟩
      · obtain ⟨before, behind⟩ := ih mem
        exact ⟨on.trans before, behind⟩

/-- Of two moments of a passage the later one is onward from the earlier one. -/
theorem pairwise (h : Passage c ms c') :
    ms.Pairwise fun m m' => m.cursor.Onward m'.cursor := by
  induction h with
  | done on => exact .nil
  | cons on rest ih => exact .cons (fun m mem => (rest.of_mem mem).1) ih

end Passage

/-! ## Journeys

Journeys are put together along a routine: one stops where it begins, moves first, or goes
through the rule of a goal between entering it and leaving it. -/

/-- No more expressions are open than may be. -/
def Parser.Allowed (limit : Option Nat) (p : Parser) : Prop := ∀ most ∈ limit, p.depth ≤ most

theorem Parser.allowed_enter {limit : Option Nat} {goal : Goal} {p : Parser}
    (room : goal.isRefused limit p = false) (start : p.Allowed limit) :
    (goal.enter p).Allowed limit := by
  cases goal with
  | expression min =>
      intro most mem
      obtain rfl := Option.mem_def.mp mem
      have below : p.depth < most := by simpa [Goal.isRefused, isFull] using room
      exact below
  | _ => exact start

/-- Moments on the way from one parser to another, which has as many expressions open.
All the time these are no more than may be, if they are so in the beginning. -/
structure Journey (limit : Option Nat) (p : Parser) (ms : List Parser) (q : Parser) : Prop where
  passage : Passage p.cursor ms q.cursor
  depth_eq : q.depth = p.depth
  allowed : p.Allowed limit → ∀ m ∈ ms, m.Allowed limit

namespace Journey

variable {limit : Option Nat} {p p' q q' : Parser} {ms more : List Parser}

theorem stop (p : Parser) : Journey limit p [p] p := by
  refine ⟨.cons (.refl _) (.done (.refl _)), rfl, ?_⟩
  intro start m mem
  rwa [List.mem_singleton.mp mem]

theorem move (h : Journey limit p' ms q) (on : p.cursor.Onward p'.cursor)
    (same : p'.depth = p.depth) : Journey limit p (p :: ms) q := by
  refine ⟨.cons (.refl _) (h.passage.behind on), h.depth_eq.trans same, ?_⟩
  intro start m mem
  rcases List.mem_cons.mp mem with rfl | mem
  · exact start
  · refine h.allowed ?_ m mem
    rwa [Parser.Allowed, same]

theorem append (h : Journey limit p ms q) (h' : Journey limit q more q') :
    Journey limit p (ms ++ more) q' := by
  refine ⟨h.passage.append h'.passage, h'.depth_eq.trans h.depth_eq, ?_⟩
  intro start m mem
  rcases List.mem_append.mp mem with mem | mem
  · exact h.allowed start m mem
  · refine h'.allowed ?_ m mem
    rwa [Parser.Allowed, h.depth_eq]

theorem around {goal : Goal} (h : Journey limit (goal.enter p) ms q)
    (room : goal.isRefused limit p = false) :
    Journey limit p (p :: (ms ++ [goal.leave p q])) (goal.leave p q) := by
  have inside : Passage p.cursor ms (goal.leave p q).cursor := by
    rw [Goal.cursor_leave, ← goal.cursor_enter]
    exact h.passage
  have depth := goal.depth_leave h.depth_eq
  refine ⟨.cons (.refl _) (inside.append (.cons (.refl _) (.done (.refl _)))), depth, ?_⟩
  intro start m mem
  rcases List.mem_cons.mp mem with rfl | mem
  · exact start
  · rcases List.mem_append.mp mem with mem | mem
    · exact h.allowed (Parser.allowed_enter room start) m mem
    · rw [List.mem_singleton.mp mem, Parser.Allowed, depth]
      exact start

end Journey

/-- A routine that keeps to where it stands makes a journey, if the phrases inside it do. -/
theorem Routine.journey {α : Type} {limit : Option Nat} {outer : Goal}
    {nested : (goal : Goal) → Parser → Option (Outcome goal.Result)}
    {inside : Goal → Parser → List Parser}
    (goes : ∀ goal p result q, goal.Starts p.cursor → nested goal p = some (result, q) →
      Journey limit p (inside goal p) q)
    {r : Routine α} {p q : Parser} {result : Except ParseError α} (heeds : r.Heeds outer p.cursor)
    (run : r.run nested p = some (result, q)) :
    Journey limit p (r.moments nested inside p) q := by
  induction r generalizing p with
  | done =>
      cases run
      exact .stop _
  | fail =>
      cases run
      exact .stop _
  | current go ih => exact ih _ heeds run
  | next go ih => exact ih _ heeds.2 run
  | previous go ih => exact ih _ heeds run
  | advance go ih => exact (@ih p.advance heeds.2 run).move (.advance heeds.1) rfl
  | skipLines go ih => exact (@ih p.skipLines heeds run).move (.skipLines p.cursor) rfl
  | isLocal name go ih => exact ih _ (heeds _) run
  | declare name go ih => exact (@ih _ (p.declare name) (heeds _) run).move (.refl _) rfl
  | intern name go ih => exact (@ih (p.intern name) heeds run).move (.refl _) rfl
  | read goal go ih =>
      rw [Routine.run] at run
      rw [moments]
      cases found : nested goal p with
      | none => simp [found] at run
      | some outcome =>
          obtain ⟨inner, p'⟩ := outcome
          have first := goes goal p inner p' heeds.1.1 found
          rw [found] at run
          cases inner with
          | error e =>
              obtain ⟨-, rfl⟩ := Prod.mk.inj (Option.some.inj run)
              rwa [List.append_nil]
          | ok a => exact first.append (ih a (heeds.2 a p'.cursor) run)

theorem Goal.heeds_enter {goal : Goal} {p : Parser} (starts : goal.Starts p.cursor) :
    goal.routine.Heeds goal (goal.enter p).cursor := by
  rw [cursor_enter]
  exact routine_heeds starts

namespace Parser

variable {limit : Option Nat} {goal : Goal} {p q : Parser}

theorem attempt_journey {fuel : Nat} {result : Except ParseError goal.Result}
    (starts : goal.Starts p.cursor) (found : attempt limit fuel goal p = some (result, q)) :
    Journey limit p (momentsWithin limit fuel goal p) q := by
  induction fuel generalizing goal p q with
  | zero => cases found
  | succ fuel ih =>
      rw [momentsWithin, found]
      rcases Goal.around_cases found with ⟨refused, rfl, rfl⟩ | ⟨room, q', run, rfl⟩
      · rw [if_pos refused]
        exact (Journey.stop _).move (.refl _) rfl
      · rw [room]
        exact (Routine.journey (fun _ _ _ _ => ih) (Goal.heeds_enter starts) run).around room

theorem run_onward {α : Type} {fuel : Nat} {outer : Goal} {r : Routine α}
    {result : Except ParseError α} (heeds : r.Heeds outer p.cursor)
    (run : r.run (attempt limit fuel) p = some (result, q)) : p.cursor.Onward q.cursor :=
  (Routine.journey (fun _ _ _ _ => attempt_journey) heeds run).passage.onward

/-- Reading a phrase is a journey through its moments. -/
theorem read_journey (limit : Option Nat) (starts : goal.Starts p.cursor) :
    Journey limit p (p.moments limit goal) (p.read limit goal).2 :=
  attempt_journey starts (attempt_eq_read limit goal p)

/-- Whether it succeeds or not, reading a phrase moves onward. -/
theorem read_onward (limit : Option Nat) (starts : goal.Starts p.cursor) :
    p.cursor.Onward (p.read limit goal).2.cursor :=
  (read_journey limit starts).passage.onward

end Parser

end RubyReader
