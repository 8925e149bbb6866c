/-
# `Onward` — how far a cursor can get

A cursor moves on over tokens that do not end the input, and over no other one: it never
goes back, and the first end of the input is the last token that it can stand at.
-/
import RubyReader.Proofs.Reading.Cursor

namespace RubyReader

/-- The index of the first token that ends the input. -/
def firstEnd (tokens : List Token) : Nat := tokens.findIdx fun token => token.kind = .eof

namespace Cursor

/-- From one cursor to another some tokens are passed, none of which ends the input. -/
def Onward (c c' : Cursor) : Prop :=
  ∃ passed, c'.before = passed.reverse ++ c.before ∧ c.upcoming = passed ++ c'.upcoming ∧
    ∀ token ∈ passed, token.kind ≠ .eof

variable {c c' c'' : Cursor}

theorem getElem?_index (c : Cursor) : c.tokens[c.index]? = some c.current := by
  simp [tokens, index]

theorem index_advance (h : c.current.kind ≠ .eof) : c.advance.index = c.index + 1 := by
  rw [index, before_advance h, List.length_cons]
  rfl

theorem getElem?_next (h : c.current.kind ≠ .eof) : c.tokens[c.index + 1]? = some c.next := by
  have there := c.advance.getElem?_index
  rwa [tokens_advance, index_advance h, current_advance h] at there

namespace Onward

theorem refl (c : Cursor) : c.Onward c := ⟨[], rfl, rfl, nofun⟩

theorem trans (h : c.Onward c') (h' : c'.Onward c'') : c.Onward c'' := by
  obtain ⟨passed, before, upcoming, none⟩ := h
  obtain ⟨more, before', upcoming', none'⟩ := h'
  refine ⟨passed ++ more, ?_, ?_, ?_⟩
  · rw [before', before, List.reverse_append, List.append_assoc]
  · rw [upcoming, upcoming', List.append_assoc]
  · intro token mem
    rcases List.mem_append.mp mem with mem | mem
    · exact none token mem
    · exact none' token mem

theorem advance (h : c.current.kind ≠ .eof) : c.Onward c.advance := by
  refine ⟨[c.current], before_advance h, upcoming_of_ne h, ?_⟩
  intro token mem
  rwa [List.mem_singleton.mp mem]

theorem skipLines (c : Cursor) : c.Onward c.skipLines :=
  skipLines_keeps (motive := c.Onward) (refl c) fun _ newline passed =>
    passed.trans (advance (by simp [newline]))

theorem tokens_eq (h : c.Onward c') : c'.tokens = c.tokens := by
  obtain ⟨passed, before, upcoming, -⟩ := h
  rw [Cursor.tokens_eq, Cursor.tokens_eq, before, upcoming]
  simp

theorem index_le (h : c.Onward c') : c.index ≤ c'.index := by
  obtain ⟨passed, before, -, -⟩ := h
  rw [index, index, before, List.length_append]
  exact Nat.le_add_left _ _

/-- What a cursor has passed from the first token on does not end the input, so the first
end is behind it. -/
theorem firstEnd_eq (start : c.before = []) (h : c.Onward c') :
    firstEnd c.tokens = firstEnd c'.upcoming + c'.index := by
  have tokens_eq := h.tokens_eq
  obtain ⟨passed, before, -, none⟩ := h
  have passes : c'.before.reverse.findIdx (fun token => decide (token.kind = .eof))
      = c'.before.reverse.length := by
    refine List.findIdx_eq_length_of_false fun token mem => decide_eq_false ?_
    rw [before, start, List.append_nil, List.reverse_reverse] at mem
    exact none token mem
  rw [← tokens_eq, Cursor.tokens_eq, firstEnd, List.findIdx_append, passes,
    if_neg (Nat.lt_irrefl _), List.length_reverse]
  rfl

theorem index_le_firstEnd (start : c.before = []) (h : c.Onward c') :
    c'.index ≤ firstEnd c.tokens := by
  rw [h.firstEnd_eq start]
  exact Nat.le_add_left _ _

/-- A cursor that stands at an end of the input stands at the first one. -/
theorem index_eq_firstEnd (start : c.before = []) (h : c.Onward c')
    (ends : c'.current.kind = .eof) : c'.index = firstEnd c.tokens := by
  rw [h.firstEnd_eq start, firstEnd, upcoming, List.findIdx_cons, ends]
  simp

end Onward

end Cursor

end RubyReader
