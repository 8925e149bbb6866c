/-
# `Positions` — offsets and positions correspond

Read from the start of a text, each character takes the position on: a
newline to the start of the next line, any other to the next column.  The
position of an offset is where the characters in front of it lead
(`positionOf_boundary`), so positions of offsets can be added up piece by
piece (`after_append`) and grow with the text (`before_after`).
-/
import Mathlib.Data.List.Induction
import RubyReader.Source.Lines

namespace RubyReader

/-! ## Characters move a position on

A newline leads to the first column of the next line, any other character to the next
column.  So positions ascend, and they move down together. -/

namespace Position

/-- The position behind a character at a position. -/
def step (position : Position) (c : Char) : Position :=
  if c = '\n' then ⟨position.line + 1, 1⟩ else ⟨position.line, position.column + 1⟩

/-- The position behind characters of which the first is at a position. -/
def after (position : Position) (chars : List Char) : Position := chars.foldl step position

variable {p q r : Position}

@[simp] theorem after_nil : p.after [] = p := rfl

@[simp] theorem after_cons {c : Char} {chars : List Char} :
    p.after (c :: chars) = (p.step c).after chars := rfl

theorem after_append {chars more : List Char} :
    p.after (chars ++ more) = (p.after chars).after more := List.foldl_append

theorem Before.trans (h : p.Before q) (h' : q.Before r) : p.Before r := by
  unfold Before at *
  omega

theorem Before.ne (h : p.Before q) : p ≠ q := by
  rintro rfl
  unfold Before at h
  omega

theorem before_step {c : Char} : p.Before (p.step c) := by
  unfold step Before
  split
  · exact Or.inl (Nat.lt_succ_self _)
  · exact Or.inr ⟨rfl, Nat.lt_succ_self _⟩

theorem before_after {chars : List Char} (h : chars ≠ []) : p.Before (p.after chars) := by
  induction chars generalizing p with
  | nil => exact absurd rfl h
  | cons c rest ih =>
      cases rest with
      | nil => exact before_step
      | cons d rest => exact before_step.trans (ih (List.cons_ne_nil _ _))

def down (lines : Nat) (position : Position) : Position :=
  ⟨position.line + lines, position.column⟩

theorem down_zero : down 0 = id := rfl

theorem down_comp_down (lines more : Nat) : down more ∘ down lines = down (lines + more) := by
  funext position
  exact congrArg (Position.mk · position.column) (Nat.add_assoc ..)

theorem step_down {lines : Nat} {c : Char} : (p.down lines).step c = (p.step c).down lines := by
  unfold step down
  split
  · exact congrArg (Position.mk · 1) (Nat.add_right_comm ..)
  · rfl

theorem after_down {lines : Nat} {chars : List Char} :
    (p.down lines).after chars = (p.after chars).down lines := by
  induction chars generalizing p with
  | nil => rfl
  | cons c rest ih => rw [after_cons, after_cons, step_down, ih]

theorem line_after {chars : List Char} : (p.after chars).line = p.line + chars.count '\n' := by
  induction chars generalizing p with
  | nil => rfl
  | cons c rest ih =>
      rw [after_cons, ih, step, List.count_cons]
      by_cases newline : c = '\n'
      · simp [newline]
        omega
      · simp [newline]

/-- The position behind the first characters of a text: its line counts their newlines,
its column the characters behind the last of these. -/
def behind (front : List Char) : Position :=
  ⟨1 + front.count '\n', 1 + (front.reverse.takeWhile (· ≠ '\n')).length⟩

/-- From the start of a text its characters lead to the position behind them. -/
theorem after_start (chars : List Char) : start.after chars = behind chars := by
  induction chars using List.reverseRecOn with
  | nil => rfl
  | append_singleton front c ih =>
      rw [after_append, ih, after_cons, after_nil, step]
      by_cases newline : c = '\n'
      · simp [behind, newline, Nat.add_assoc]
      · simp [behind, newline, Nat.add_comm]

end Position

/-! ## Lines -/

@[simp] theorem byteLength_nil : byteLength [] = 0 := rfl

theorem byteLength_cons {c : Char} {chars : List Char} :
    byteLength (c :: chars) = c.utf8Size + byteLength chars := rfl

theorem byteLength_append {chars more : List Char} :
    byteLength (chars ++ more) = byteLength chars + byteLength more := by
  induction chars with
  | nil => simp
  | cons c rest ih => rw [List.cons_append, byteLength_cons, ih, byteLength_cons, Nat.add_assoc]

@[simp] theorem byteLength_reverse {chars : List Char} :
    byteLength chars.reverse = byteLength chars := by
  induction chars with
  | nil => rfl
  | cons c rest ih =>
      rw [List.reverse_cons, byteLength_append, ih, byteLength_cons, byteLength_cons]
      exact Nat.add_comm ..

theorem Line.charsWithin_byteLength (chars more : List Char) :
    charsWithin (byteLength chars) (chars ++ more) = chars.length := by
  induction chars with
  | nil => simp [charsWithin]
  | cons c rest ih =>
      have pos := c.utf8Size_pos
      obtain ⟨bytes, e⟩ : ∃ bytes, byteLength (c :: rest) = bytes + 1 :=
        ⟨byteLength (c :: rest) - 1, by rw [byteLength_cons]; omega⟩
      have left : bytes + 1 - c.utf8Size = byteLength rest := by
        rw [← e, byteLength_cons]
        omega
      rw [e, List.cons_append, charsWithin, left, ih, List.length_cons, Nat.add_comm]

namespace Lines

/-- The first line begins where it is cut, with the characters seen so far,
and the next one begins behind these. -/
theorem first_cut (chars : List Char) (start : Nat) (seen : List Char) :
    (∃ more, (cut start seen chars).first = ⟨start, seen.reverse ++ more⟩) ∧
      ∀ below ∈ (cut start seen chars).rest.head?, start + byteLength seen < below.start := by
  induction chars generalizing start seen with
  | nil => exact ⟨⟨[], by simp [cut]⟩, by simp [cut]⟩
  | cons c rest ih =>
      unfold cut
      split
      · rename_i newline
        refine ⟨⟨[c], by simp⟩, ?_⟩
        obtain ⟨⟨more, first⟩, _⟩ := ih (start + byteLength (c :: seen).reverse) []
        intro below h
        simp only [List.head?_cons, Option.mem_some_iff] at h
        rw [← h, first]
        have pos := c.utf8Size_pos
        simp only [byteLength_reverse, byteLength_cons]
        omega
      · obtain ⟨⟨more, first⟩, next⟩ := ih start (c :: seen)
        refine ⟨⟨c :: more, by simpa using first⟩, fun below h => ?_⟩
        have := next below h
        rw [byteLength_cons] at this
        omega

/-- An offset in front of the next line is in this one. -/
theorem locate_here {offset number : Nat} {line : Line} {rest : List Line}
    (h : ∀ below ∈ rest.head?, offset < below.start) :
    locate offset number line rest = ⟨number, line.column offset⟩ := by
  cases rest with
  | nil => rfl
  | cons below rest =>
      have : ¬ below.start ≤ offset := Nat.not_le.mpr (h below rfl)
      simp [locate, this]

theorem locate_cut (chars more : List Char) (start number : Nat) (seen : List Char) :
    locate (start + byteLength seen + byteLength chars) number
        (cut start seen (chars ++ more)).first (cut start seen (chars ++ more)).rest
      = (Position.mk number (1 + seen.length)).after chars := by
  induction chars generalizing start number seen with
  | nil =>
      obtain ⟨⟨tail, first⟩, next⟩ := first_cut more start seen
      have here : start + byteLength seen + byteLength [] - start = byteLength seen.reverse := by
        simp
      rw [List.nil_append, locate_here (by simpa using next), first, Line.column, here,
        Line.charsWithin_byteLength, List.length_reverse, Position.after_nil]
  | cons c rest ih =>
      rw [List.cons_append, Position.after_cons]
      unfold cut
      split
      · rename_i newline
        have below := ih (start + byteLength (c :: seen).reverse) (number + 1) []
        obtain ⟨⟨tail, first⟩, _⟩ :=
          first_cut (rest ++ more) (start + byteLength (c :: seen).reverse) []
        have offset : start + byteLength seen + byteLength (c :: rest)
            = start + byteLength (c :: seen).reverse + byteLength [] + byteLength rest := by
          simp only [byteLength_reverse, byteLength_cons, byteLength_nil]
          omega
        have within : (cut (start + byteLength (c :: seen).reverse) [] (rest ++ more)).first.start
            ≤ start + byteLength (c :: seen).reverse + byteLength [] + byteLength rest := by
          rw [first]
          show start + byteLength (c :: seen).reverse ≤ _
          omega
        simp only [locate]
        rw [offset, if_pos within, below, Position.step, if_pos newline]
        rfl
      · rename_i other
        have here := ih start number (c :: seen)
        have offset : start + byteLength seen + byteLength (c :: rest)
            = start + byteLength (c :: seen) + byteLength rest := by
          simp only [byteLength_cons]
          omega
        rw [offset, here, Position.step, if_neg other, List.length_cons]
        rfl

/-- The position of an offset is where the characters in front of it lead. -/
theorem positionOf_boundary (chars more : List Char) :
    (ofChars (chars ++ more)).positionOf (byteLength chars) = Position.start.after chars := by
  have h := locate_cut chars more 0 1 []
  simpa [positionOf, ofChars, Position.start] using h

end Lines

end RubyReader
