/-
# `Cursor` — what a move does to the tokens

The upcoming tokens of a cursor are the current one and those behind it.  A
step takes the first of them away as long as it does not end the input;
skipping line ends takes away all line ends in front.  Neither changes the
tokens as a whole.
-/
import RubyReader.Parser.Progress

namespace RubyReader.Cursor

/-- The current token and those behind it. -/
def upcoming (c : Cursor) : List Token := c.current :: c.after

variable {c : Cursor}

theorem length_upcoming : c.upcoming.length = c.remaining + 1 := rfl

theorem tokens_eq : c.tokens = c.before.reverse ++ c.upcoming := rfl

/-! ## One step

A step takes the current token off the upcoming ones.  The last token ends the input, and a
step from it leads nowhere. -/

theorem upcoming_of_ne (h : c.current.kind ≠ .eof) :
    c.upcoming = c.current :: c.advance.upcoming := by
  have pos := remaining_pos h
  obtain ⟨before, current, after, ends⟩ := c
  cases after with
  | nil => exact absurd pos (Nat.lt_irrefl 0)
  | cons token rest => rfl

theorem upcoming_advance (h : c.current.kind ≠ .eof) : c.advance.upcoming = c.after :=
  (List.cons.inj (upcoming_of_ne h)).2.symm

theorem before_advance (h : c.current.kind ≠ .eof) :
    c.advance.before = c.current :: c.before := by
  have pos := remaining_pos h
  obtain ⟨before, current, after, ends⟩ := c
  cases after with
  | nil => exact absurd pos (Nat.lt_irrefl 0)
  | cons token rest => rfl

theorem previous_advance (h : c.current.kind ≠ .eof) :
    c.advance.previous? = some c.current := by
  rw [previous?, before_advance h, List.head?_cons]

theorem current_advance (h : c.current.kind ≠ .eof) : c.advance.current = c.next := by
  have pos := remaining_pos h
  obtain ⟨before, current, after, ends⟩ := c
  cases after with
  | nil => exact absurd pos (Nat.lt_irrefl 0)
  | cons token rest => rfl

theorem advance_of_last (h : c.remaining = 0) : c.advance = c := by
  obtain ⟨before, current, after, ends⟩ := c
  cases after with
  | nil => rfl
  | cons token rest => exact absurd h (Nat.succ_ne_zero _)

theorem kind_of_last (h : c.remaining = 0) : c.current.kind = .eof := by
  by_cases eof : c.current.kind = .eof
  · exact eof
  · exact absurd h (Nat.ne_of_gt (remaining_pos eof))

@[simp] theorem tokens_advance : c.advance.tokens = c.tokens := by
  by_cases last : c.remaining = 0
  · rw [advance_of_last last]
  · obtain ⟨before, current, after, ends⟩ := c
    cases after with
    | nil => exact absurd rfl last
    | cons token rest => simp [advance, tokens]

theorem after_of_eof {tokens : List Token} {last : Token}
    (h : c.tokens = tokens ++ [last]) (only : ∀ token ∈ tokens, token.kind ≠ .eof)
    (eof : c.current.kind = .eof) : c.after = [] := by
  cases rest : c.after with
  | nil => rfl
  | cons token more =>
      refine absurd eof (only c.current ?_)
      have inner := congrArg List.dropLast h
      rw [tokens_eq, upcoming, rest, List.dropLast_concat, List.dropLast_append_cons,
        List.dropLast_cons_cons] at inner
      simp [← inner]

/-! ## Skipping line ends -/

theorem skipLines_of_ne (h : c.current.kind ≠ .newline) : c.skipLines = c := by
  simp [skipLines, h, forward]

theorem skipLines_of_newline (h : c.current.kind = .newline) :
    c.skipLines = c.advance.skipLines := by
  have pos := upcoming_of_ne (c := c) (by simp [h])
  simp only [upcoming, List.cons.injEq, true_and] at pos
  simp [skipLines, h, pos, forward]

/-- Induction on the line ends in front of a cursor. -/
theorem lines_induction {motive : Cursor → Prop}
    (stop : ∀ c : Cursor, c.current.kind ≠ .newline → motive c)
    (step : ∀ c : Cursor, c.current.kind = .newline → motive c.advance → motive c)
    (c : Cursor) : motive c := by
  induction left : c.remaining using Nat.strongRecOn generalizing c with
  | ind left' ih =>
      by_cases newline : c.current.kind = .newline
      · have fewer := remaining_advance_of_ne (c := c) (by simp [newline])
        exact step c newline (ih c.advance.remaining (by omega) c.advance rfl)
      · exact stop c newline

/-- What a step over a line end keeps is kept by skipping line ends. -/
theorem skipLines_keeps {motive : Cursor → Prop} (start : motive c)
    (step : ∀ c : Cursor, c.current.kind = .newline → motive c → motive c.advance) :
    motive c.skipLines := by
  induction c using lines_induction with
  | stop c other => rwa [skipLines_of_ne other]
  | step c newline ih =>
      rw [skipLines_of_newline newline]
      exact ih (step c newline start)

@[simp] theorem tokens_skipLines : c.skipLines.tokens = c.tokens :=
  skipLines_keeps (motive := fun d => d.tokens = c.tokens) rfl fun _ _ same =>
    tokens_advance.trans same

theorem current_skipLines_ne : c.skipLines.current.kind ≠ .newline := by
  induction c using lines_induction with
  | stop c other => rwa [skipLines_of_ne other]
  | step c newline ih => rwa [skipLines_of_newline newline]

@[simp] theorem skipLines_skipLines : c.skipLines.skipLines = c.skipLines :=
  skipLines_of_ne current_skipLines_ne

/-- Whoever has skipped line ends stands behind one, or where he was. -/
theorem previous_skipLines :
    c.skipLines = c ∨ ∃ t, c.skipLines.previous? = some t ∧ t.kind = .newline :=
  skipLines_keeps (motive := fun d => d = c ∨ ∃ t, d.previous? = some t ∧ t.kind = .newline)
    (Or.inl rfl) fun d newline _ =>
      Or.inr ⟨d.current, previous_advance (by simp [newline]), newline⟩

end RubyReader.Cursor
