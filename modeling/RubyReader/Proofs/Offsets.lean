/-
# `Offsets` — offsets and positions correspond

A byte offset of a text is a boundary if a character begins there or the text ends there.
Then its position counts what is in front of it,

    line     1 + the newlines in front of it
    column   1 + the characters between it and the last of these, or the start

and all offsets behind the end have the position of the end.  A later boundary has a later
position in reading order, so no two boundaries share one (`positionOf_corresponds`).

The walk from line to line finds the same line as a search by halves among the offsets at
which lines start (`position?`), which needs these to ascend.
-/
import RubyReader.Proofs.Checked.Slices

namespace RubyReader

/-! ## Boundaries

A boundary is an offset with whole characters in front of it.  Of two boundaries the later
one has more of them. -/

theorem utf8ByteSize_ofList (chars : List Char) :
    (String.ofList chars).utf8ByteSize = byteLength chars := by
  induction chars with
  | nil => rfl
  | cons c rest ih =>
      rw [String.ofList_cons, String.utf8ByteSize_append, String.utf8ByteSize_singleton, ih,
        byteLength_cons]

theorem byteLength_toList (text : String) : byteLength text.toList = text.utf8ByteSize := by
  rw [← utf8ByteSize_ofList, String.ofList_toList]

/-- A boundary has characters in front of it, which have the bytes in front of it. -/
theorem isValid_iff {text : String} {offset : Nat} :
    (String.Pos.Raw.mk offset).IsValid text ↔
      ∃ front back, text.toList = front ++ back ∧ byteLength front = offset := by
  rw [String.Pos.Raw.isValid_iff_exists_append]
  constructor
  · rintro ⟨front, back, rfl, same⟩
    refine ⟨front.toList, back.toList, String.toList_append, ?_⟩
    rw [byteLength_toList]
    exact (congrArg String.Pos.Raw.byteIdx same).symm
  · rintro ⟨front, back, cut, rfl⟩
    refine ⟨.ofList front, .ofList back, ?_, ?_⟩
    · rw [← String.ofList_append, ← cut, String.ofList_toList]
    · exact congrArg String.Pos.Raw.mk (utf8ByteSize_ofList front).symm

theorem exists_between {front back front' back' : List Char}
    (same : front ++ back = front' ++ back') (less : byteLength front < byteLength front') :
    ∃ inside, inside ≠ [] ∧ front' = front ++ inside := by
  rcases List.append_eq_append_iff.mp same with ⟨inside, rfl, -⟩ | ⟨inside, rfl, -⟩
  · refine ⟨inside, ?_, rfl⟩
    rintro rfl
    rw [List.append_nil] at less
    exact absurd less (Nat.lt_irrefl _)
  · rw [byteLength_append] at less
    omega

/-! ## Behind the end -/

namespace Line

theorem charsWithin_of_le {chars : List Char} {bytes : Nat} (h : byteLength chars ≤ bytes) :
    charsWithin bytes chars = chars.length := by
  induction chars generalizing bytes with
  | nil => cases bytes <;> rfl
  | cons c rest ih =>
      have pos := c.utf8Size_pos
      rw [byteLength_cons] at h
      obtain ⟨fewer, rfl⟩ : ∃ fewer, bytes = fewer + 1 := ⟨bytes - 1, by omega⟩
      have left : byteLength rest ≤ fewer + 1 - c.utf8Size := by omega
      rw [charsWithin, ih left, List.length_cons, Nat.add_comm]

end Line

namespace Lines

/-- Behind the end every offset is in the last line, behind all of its characters. -/
theorem locate_beyond {chars seen : List Char} {start number offset : Nat}
    (h : start + byteLength seen + byteLength chars ≤ offset) :
    locate offset number (cut start seen chars).first (cut start seen chars).rest
      = (Position.mk number (1 + seen.length)).after chars := by
  induction chars generalizing start seen number with
  | nil =>
      have all : byteLength seen.reverse ≤ offset - start := by
        rw [byteLength_nil] at h
        rw [byteLength_reverse]
        omega
      rw [cut, locate, Line.column, Line.charsWithin_of_le all, List.length_reverse,
        Position.after_nil]
  | cons c rest ih =>
      rw [byteLength_cons] at h
      rw [Position.after_cons]
      unfold cut
      split
      · rename_i newline
        have size : byteLength (c :: seen).reverse = c.utf8Size + byteLength seen := by
          rw [byteLength_reverse, byteLength_cons]
        obtain ⟨⟨_, first⟩, -⟩ := first_cut rest (start + byteLength (c :: seen).reverse) []
        have below :
            (cut (start + byteLength (c :: seen).reverse) [] rest).first.start ≤ offset := by
          rw [first, size]
          show start + (c.utf8Size + byteLength seen) ≤ offset
          omega
        have further : start + byteLength (c :: seen).reverse + byteLength [] + byteLength rest
            ≤ offset := by
          rw [size, byteLength_nil]
          omega
        rw [locate, if_pos below, ih further, Position.step, if_pos newline]
        rfl
      · rename_i other
        have further : start + byteLength (c :: seen) + byteLength rest ≤ offset := by
          rw [byteLength_cons]
          omega
        rw [ih further, Position.step, if_neg other, List.length_cons]
        rfl

theorem positionOf_beyond {chars : List Char} {offset : Nat} (h : byteLength chars ≤ offset) :
    (ofChars chars).positionOf offset = .behind chars := by
  rw [← Position.after_start]
  exact locate_beyond (by simpa using h)

theorem position?_beyond {chars : List Char} {offset : Nat} (h : byteLength chars ≤ offset) :
    position? chars offset = some (.behind chars) := by
  have cut : min offset (byteLength (chars ++ [])) = byteLength chars := by
    rw [List.append_nil, Nat.min_eq_right h]
  have found := position?_eq cut nofun
  rwa [List.append_nil, Position.after_start] at found

/-! ## The correspondence -/

/-- Later boundaries have later positions. -/
theorem positionOf_before {text : String} {offset later : Nat}
    (boundary : (String.Pos.Raw.mk offset).IsValid text)
    (boundary' : (String.Pos.Raw.mk later).IsValid text) (less : offset < later) :
    ((ofChars text.toList).positionOf offset).Before ((ofChars text.toList).positionOf later) := by
  obtain ⟨front, back, cut, rfl⟩ := isValid_iff.mp boundary
  obtain ⟨front', back', cut', rfl⟩ := isValid_iff.mp boundary'
  obtain ⟨inside, some, rfl⟩ := exists_between (cut.symm.trans cut') less
  have here := positionOf_boundary front back
  have there := positionOf_boundary (front ++ inside) back'
  rw [← cut] at here
  rw [← cut', Position.after_append] at there
  rw [here, there]
  exact Position.before_after some

/-- The position of a boundary counts the lines in front of it, and in its line the
characters; offsets behind the end have the position of the end; and on boundaries
positions ascend, so that none is that of two.  The search by halves finds the same. -/
theorem positionOf_corresponds (text : String) :
    let position := (ofChars text.toList).positionOf
    (∀ offset, (String.Pos.Raw.mk offset).IsValid text →
      ∃ front back, text = front ++ back ∧ front.utf8ByteSize = offset ∧
        position offset = ⟨1 + front.toList.count '\n',
          1 + (front.toList.reverse.takeWhile (· ≠ '\n')).length⟩ ∧
        position? text.toList offset = some (position offset)) ∧
    (∀ offset, text.utf8ByteSize ≤ offset →
      position offset = position text.utf8ByteSize ∧
        position? text.toList offset = some (position offset)) ∧
    (∀ offset later, (String.Pos.Raw.mk offset).IsValid text →
      (String.Pos.Raw.mk later).IsValid text → offset < later →
        (position offset).Before (position later)) ∧
    ∀ offset other, (String.Pos.Raw.mk offset).IsValid text →
      (String.Pos.Raw.mk other).IsValid text → position offset = position other →
        offset = other := by
  intro position
  refine ⟨?counts, ?beyond, fun _ _ => positionOf_before, ?apart⟩
  case counts =>
    intro offset boundary
    obtain ⟨front, back, cut, rfl⟩ := isValid_iff.mp boundary
    have here := positionOf_boundary front back
    have found := position?_boundary front back
    rw [← cut, Position.after_start] at here
    rw [← cut] at found
    refine ⟨.ofList front, .ofList back, ?_, ?_, ?_, found⟩
    · rw [← String.ofList_append, ← cut, String.ofList_toList]
    · exact utf8ByteSize_ofList front
    · rw [String.toList_ofList]
      exact here
  case beyond =>
    intro offset behind
    rw [← byteLength_toList] at behind ⊢
    have here := positionOf_beyond behind
    exact ⟨here.trans (positionOf_beyond (Nat.le_refl _)).symm,
      (position?_beyond behind).trans (congrArg some here.symm)⟩
  case apart =>
    intro offset other boundary boundary' same
    rcases Nat.lt_trichotomy offset other with less | equal | greater
    · exact absurd same (positionOf_before boundary boundary' less).ne
    · exact equal
    · exact absurd same.symm (positionOf_before boundary' boundary greater).ne

/-- Between a letter of two bytes and an empty line: a newline itself, the empty line, and
two offsets behind the end. -/
theorem positionOf_corresponds_of_accent :
    let position := (ofChars "é\n\nx".toList).positionOf
    (String.Pos.Raw.mk 2).IsValid "é\n\nx" ∧ (String.Pos.Raw.mk 3).IsValid "é\n\nx" ∧
      (position 2).Before (position 3) ∧ 5 ≤ 7 ∧ position 7 = position 5 ∧
        position 2 = ⟨1, 2⟩ ∧ position 3 = ⟨2, 1⟩ ∧ position 5 = ⟨3, 2⟩ := by
  have newline : (String.Pos.Raw.mk 2).IsValid "é\n\nx" := by decide
  have emptyLine : (String.Pos.Raw.mk 3).IsValid "é\n\nx" := by decide
  obtain ⟨-, beyond, ascend, -⟩ := positionOf_corresponds "é\n\nx"
  exact ⟨newline, emptyLine, ascend 2 3 newline emptyLine (by decide), by decide,
    (beyond 7 (by decide)).1, by decide, by decide, by decide⟩

end Lines

end RubyReader
