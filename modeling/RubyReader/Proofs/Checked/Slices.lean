/-
# `Slices` — text cut at byte offsets

A text can be cut only where a character ends, a number be taken away only from one that
is not less, and a list be searched by halves only if it ascends.  Here each of these has
no outcome outside its domain:

    splitBytes? n chars       the characters in the first `n` bytes, and those behind
    slice? start stop chars   the characters from one byte up to another
    minus? a b                `a - b`
    search? x list            the index of `x`, or where it would be

The position of a byte offset asks for all of them (`position?`).  It has them wherever a
character begins and at the end of the text, and is the one of `Lines.positionOf` there
(`position?_boundary`).
-/
import RubyReader.Proofs.Source.Positions

namespace RubyReader

/-! ## Operations with a domain -/

/-- Cuts characters behind some bytes, if a character ends there. -/
def splitBytes? : Nat → List Char → Option (List Char × List Char)
  | 0, chars => some ([], chars)
  | _ + 1, [] => none
  | bytes + 1, c :: cs =>
    if c.utf8Size ≤ bytes + 1 then
      (splitBytes? (bytes + 1 - c.utf8Size) cs).map fun (front, back) => (c :: front, back)
    else none

/-- The characters from one byte up to another, if these are in order and at both a
character ends. -/
def slice? (start stop : Nat) (chars : List Char) : Option (List Char) :=
  (splitBytes? stop chars).bind fun (front, _) => (splitBytes? start front).map Prod.snd

/-- A difference that is not negative. -/
def minus? (a b : Nat) : Option Nat := if b ≤ a then some (a - b) else none

/-- The index of a number in an ascending list, or else the one at which it would be. -/
def search? (x : Nat) (list : List Nat) : Option (Except Nat Nat) :=
  if list.Pairwise (· < ·) then
    let below := list.countP (· < x)
    some (if list[below]? = some x then .ok below else .error below)
  else none

/-- Characters are cut in two exactly where the first part has the bytes asked for. -/
theorem splitBytes?_eq_some_iff {bytes : Nat} {chars front back : List Char} :
    splitBytes? bytes chars = some (front, back) ↔
      front ++ back = chars ∧ byteLength front = bytes := by
  induction chars generalizing bytes front with
  | nil =>
      cases bytes with
      | zero => cases front <;> simp [splitBytes?, eq_comm]
      | succ bytes =>
          refine ⟨nofun, ?_⟩
          rintro ⟨joined, length⟩
          rw [(List.append_eq_nil_iff.mp joined).1] at length
          cases length
  | cons c cs ih =>
      have pos := c.utf8Size_pos
      cases front with
      | nil =>
          cases bytes with
          | zero => simp [splitBytes?, eq_comm]
          | succ bytes =>
              refine iff_of_false ?_ nofun
              simp only [splitBytes?]
              split <;> simp
      | cons d front =>
          have split : splitBytes? bytes (c :: cs) = some (d :: front, back) ↔
              c.utf8Size ≤ bytes ∧ c = d ∧
                splitBytes? (bytes - c.utf8Size) cs = some (front, back) := by
            cases bytes with
            | zero => simp [splitBytes?, Nat.ne_of_gt pos]
            | succ bytes =>
                by_cases fits : c.utf8Size ≤ bytes + 1
                · simp [splitBytes?, fits, and_comm]
                · simp [splitBytes?, fits]
          rw [split, ih, List.cons_append, List.cons.injEq, byteLength_cons]
          constructor
          · rintro ⟨fits, rfl, joined, length⟩
            exact ⟨⟨rfl, joined⟩, by omega⟩
          · rintro ⟨⟨rfl, joined⟩, length⟩
            exact ⟨by omega, rfl, joined, by omega⟩

/-- The first byte of a longer character is no place to cut. -/
example : splitBytes? 1 ['é', 'x'] = none := by decide

theorem splitBytes?_append (front back : List Char) :
    splitBytes? (byteLength front) (front ++ back) = some (front, back) :=
  splitBytes?_eq_some_iff.mpr ⟨rfl, rfl⟩

theorem splitBytes?_one {c : Char} (one : c.utf8Size = 1) (cs : List Char) :
    splitBytes? 1 (c :: cs) = some ([c], cs) :=
  splitBytes?_eq_some_iff.mpr ⟨rfl, one⟩

theorem slice?_append (front inside back : List Char) :
    slice? (byteLength front) (byteLength (front ++ inside)) (front ++ inside ++ back)
      = some inside := by
  simp only [slice?, splitBytes?_append, Option.bind_some, Option.map_some]

theorem minus?_of_le {a b : Nat} (h : b ≤ a) : minus? a b = some (a - b) := if_pos h

theorem search?_eq {earlier later : List Nat} {x y : Nat}
    (sorted : (earlier ++ y :: later).Pairwise (· < ·)) (le : y ≤ x) (less : ∀ z ∈ later, x < z) :
    search? x (earlier ++ y :: later)
      = some (if y = x then .ok earlier.length else .error (earlier.length + 1)) := by
  have first : earlier.countP (· < x) = earlier.length := by
    refine List.countP_eq_length.mpr fun z mem => decide_eq_true ?_
    exact Nat.lt_of_lt_of_le ((List.pairwise_append.mp sorted).2.2 z mem y List.mem_cons_self) le
  have last : later.countP (· < x) = 0 := by
    refine List.countP_eq_zero.mpr fun z mem => ?_
    have := less z mem
    simpa using Nat.le_of_lt this
  rw [search?, if_pos sorted]
  by_cases found : y = x
  · simp [List.countP_append, first, last, found]
  · have smaller : y < x := Nat.lt_of_le_of_ne le found
    have beyond : (earlier ++ y :: later)[earlier.length + 1]? ≠ some x := by
      intro here
      rw [List.getElem?_append_right (Nat.le_add_right _ 1), Nat.add_sub_cancel_left] at here
      exact Nat.lt_irrefl x (less x (List.mem_of_getElem? (i := 0) here))
    simpa [List.countP_append, first, last, found, smaller] using beyond

/-! ## Where lines start

Newlines end one behind the other, and lines start behind them; a search by halves relies on
that order. -/

/-- The offsets behind the newlines of characters that begin at an offset. -/
def newlineEnds (offset : Nat) : List Char → List Nat
  | [] => []
  | c :: cs =>
    if c = '\n' then (offset + 1) :: newlineEnds (offset + 1) cs
    else newlineEnds (offset + c.utf8Size) cs

/-- The offset at which each line starts. -/
def lineStarts (chars : List Char) : List Nat := 0 :: newlineEnds 0 chars

theorem newlineEnds_append (offset : Nat) (chars more : List Char) :
    newlineEnds offset (chars ++ more)
      = newlineEnds offset chars ++ newlineEnds (offset + byteLength chars) more := by
  induction chars generalizing offset with
  | nil => rfl
  | cons c rest ih =>
      rw [List.cons_append, newlineEnds, newlineEnds, byteLength_cons, ← Nat.add_assoc]
      split
      · rename_i newline
        rw [ih, newline]
        rfl
      · exact ih _

theorem lineStarts_append (chars more : List Char) :
    lineStarts (chars ++ more) = lineStarts chars ++ newlineEnds (byteLength chars) more := by
  rw [lineStarts, newlineEnds_append, Nat.zero_add]
  rfl

theorem newlineEnds_sorted (offset : Nat) (chars : List Char) :
    (∀ start ∈ newlineEnds offset chars, offset < start) ∧
      (newlineEnds offset chars).Pairwise (· < ·) := by
  induction chars generalizing offset with
  | nil => exact ⟨nofun, .nil⟩
  | cons c rest ih =>
      rw [newlineEnds]
      split
      · obtain ⟨behind, sorted⟩ := ih (offset + 1)
        refine ⟨?_, .cons behind sorted⟩
        intro start mem
        rcases List.mem_cons.mp mem with rfl | mem
        · exact Nat.lt_succ_self offset
        · exact Nat.lt_of_succ_lt (behind start mem)
      · obtain ⟨behind, sorted⟩ := ih (offset + c.utf8Size)
        exact ⟨fun start mem => Nat.lt_of_le_of_lt (Nat.le_add_right ..) (behind start mem), sorted⟩

theorem lineStarts_sorted (chars : List Char) : (lineStarts chars).Pairwise (· < ·) := by
  obtain ⟨behind, sorted⟩ := newlineEnds_sorted 0 chars
  exact .cons behind sorted

/-- The last line of a text: where it starts, behind how many others, and what it holds. -/
theorem exists_lastLine (chars : List Char) :
    ∃ above here earlier, chars = above ++ here ∧ lineStarts chars = earlier ++ [byteLength above] ∧
      Position.start.after chars = ⟨earlier.length + 1, here.length + 1⟩ := by
  induction chars using List.reverseRecOn with
  | nil => exact ⟨[], [], [], rfl, rfl, rfl⟩
  | append_singleton front c ih =>
      obtain ⟨above, here, earlier, cut, starts, position⟩ := ih
      rw [lineStarts_append, starts, Position.after_append, position]
      by_cases newline : c = '\n'
      · subst newline
        refine ⟨front ++ ['\n'], [], earlier ++ [byteLength above], ?_, ?_, ?_⟩
        · rw [List.append_nil]
        · rw [byteLength_append]
          rfl
        · simp [Position.step]
      · refine ⟨above, here ++ [c], earlier, ?_, ?_, ?_⟩
        · rw [cut, List.append_assoc]
        · simp [newlineEnds, newline]
        · simp [Position.step, newline]

/-! ## Positions -/

/-- The index of the last line that starts at or before an offset. -/
def lineOf? (chars : List Char) (offset : Nat) : Option Nat :=
  (search? offset (lineStarts chars)).bind fun
    | .ok line => some line
    | .error next => minus? next 1

/-- The position of a byte offset, which counts the characters of its line in front of it. -/
def position? (chars : List Char) (offset : Nat) : Option Position := do
  let line ← lineOf? chars offset
  let start ← (lineStarts chars)[line]?
  let before ← slice? start (min offset (byteLength chars)) chars
  some ⟨line + 1, before.length + 1⟩

/-- An offset has its position if, cut back to the end of the text, it is behind the first
characters, and in front of the lines that start behind them. -/
theorem position?_eq {front back : List Char} {offset : Nat}
    (cut : min offset (byteLength (front ++ back)) = byteLength front)
    (later : ∀ start ∈ newlineEnds (byteLength front) back, offset < start) :
    position? (front ++ back) offset = some (Position.start.after front) := by
  obtain ⟨above, here, earlier, rfl, starts, position⟩ := exists_lastLine front
  have all : lineStarts (above ++ here ++ back)
      = earlier ++ byteLength above :: newlineEnds (byteLength (above ++ here)) back := by
    rw [lineStarts_append, starts, List.append_assoc]
    rfl
  have within : byteLength above ≤ offset := by
    rw [@byteLength_append above here] at cut
    omega
  have line : lineOf? (above ++ here ++ back) offset = some earlier.length := by
    rw [lineOf?, all, search?_eq (all ▸ lineStarts_sorted _) within later]
    by_cases atStart : byteLength above = offset
    · rw [if_pos atStart]
      rfl
    · rw [if_neg atStart]
      exact minus?_of_le (Nat.le_add_left 1 earlier.length)
  have start : (lineStarts (above ++ here ++ back))[earlier.length]? = some (byteLength above) := by
    rw [all, List.getElem?_append_right (Nat.le_refl _), Nat.sub_self]
    rfl
  rw [position, position?, line, Option.bind_eq_bind, Option.bind_some, start, Option.bind_some,
    cut, slice?_append]
  rfl

/-- Wherever a character ends, an offset has its position. -/
theorem position?_boundary (front back : List Char) :
    position? (front ++ back) (byteLength front)
      = some ((Lines.ofChars (front ++ back)).positionOf (byteLength front)) := by
  rw [Lines.positionOf_boundary]
  refine position?_eq (Nat.min_eq_left ?_) (newlineEnds_sorted _ back).1
  rw [byteLength_append]
  exact Nat.le_add_right ..

end RubyReader
