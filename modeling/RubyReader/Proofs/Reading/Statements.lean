/-
# `Statements` — statements behind statements

The statements of an input end where it ends.  With a line end and further
tokens there instead, reading goes on with these, in the scope that has been
reached (`Reads.statements_append`).

Line ends in front of a statement count for nothing, and no statement looks
beyond a line end behind it; so the statements are the same as before, and the
induction runs over them.
-/
import RubyReader.Proofs.Reading.Transfer

namespace RubyReader

/-! ## Other places, and line ends in front -/

theorem Parser.skipLines_skipLines (p : Parser) : p.skipLines.skipLines = p.skipLines := by
  obtain ⟨cursor, scope, symbols, depth⟩ := p
  exact congrArg (Parser.mk · scope symbols depth) Cursor.skipLines_skipLines

variable {limit : Option Nat} {move : Position → Position}

/-- Statements do not depend on the line ends in front of them. -/
theorem Reads.statements_of_skipLines {terminator : TokenKind} {p p' q : Parser}
    {nodes : List Node} (h : Reads limit (.statements terminator) p nodes q)
    (same : p'.skipLines = p.skipLines) : Reads limit (.statements terminator) p' nodes q := by
  cases h with
  | noStatement ends =>
      rw [← same] at ends ⊢
      exact .noStatement ends
  | statement noEnd noEof first ends rest =>
      rw [← same] at noEnd noEof first
      exact .statement noEnd noEof first ends rest

/-! ## An end of the input, replaced by further tokens -/

section

variable {last : Token} {tail' : List Token} {p p' : Parser}
  {closes : ∀ token ∈ [last].head?, token.Closes} {closes' : ∀ token ∈ tail'.head?, token.Closes}

theorem Parser.within_of_ne (h : p.token.kind ≠ .eof) : p.Within [last] :=
  Cursor.remaining_pos h

theorem Parser.upTo_last (p : Parser) : p.UpTo [last] := Nat.le_add_left ..

theorem Beside.upcoming_of_last (h : Beside (.moved move closes closes') p p')
    (atEnd : p.cursor.remaining = 0) : p'.cursor.upcoming = tail' := by
  obtain ⟨front, all, all'⟩ := h.exists_front
  cases front with
  | nil => exact all'
  | cons token rest =>
      have length := congrArg List.length all
      rw [Cursor.length_upcoming, atEnd, List.length_append, List.length_cons] at length
      exact absurd length (by simp)

/-- With nothing but line ends in front of the end of one input, there are only
line ends in front of the tail of the other. -/
theorem Beside.behindLines (h : Beside (.moved move closes closes') p p')
    (atEnd : p.skipLines.cursor.remaining = 0) :
    ∃ s : Parser, s.cursor.upcoming = tail' ∧ s.scope = p'.scope ∧ s.depth = p'.depth ∧
      s.skipLines = p'.skipLines := by
  induction p using Parser.lines_induction generalizing p' with
  | stop p other =>
      rw [Parser.skipLines_of_ne other] at atEnd
      exact ⟨p', h.upcoming_of_last atEnd, rfl, rfl, rfl⟩
  | step p newline ih =>
      have ne : p.token.kind ≠ .eof := by simp [newline]
      have inStep := h.inStep_of_within (Parser.within_of_ne ne)
      have newline' : p'.token.kind = .newline := by rwa [inStep.kind_eq]
      rw [Parser.skipLines_of_newline newline] at atEnd
      rw [Parser.skipLines_of_newline newline']
      exact ih (inStep.advance ne).toBeside atEnd

/-- What ends a statement in one input ends it in the other, if the tail of that
begins with a line end. -/
theorem Beside.endsStatement {line : Token} {beyond : List Token}
    {closes' : ∀ token ∈ (line :: beyond).head?, token.Closes}
    (h : Beside (.moved move closes closes') p p') (newline : line.kind = .newline)
    (ends : p.token.kind.EndsStatement) : p'.token.kind.EndsStatement := by
  by_cases eof : p.cursor.remaining = 0
  · have token : p'.token = line := (List.cons.inj (h.upcoming_of_last eof)).1
    exact .inl (by rw [token, newline])
  · rwa [(h.inStep_of_within (Nat.pos_of_ne_zero eof)).kind_eq]

end

/-! ## Statements behind statements -/

section

variable {s r : Parser} {more : List Node} {line : Token}

/-- Statements are read again behind a line end, in the same scope and with their
tokens elsewhere. -/
theorem Reads.statements_behind (h : Reads limit (.statements .eof) s more r)
    (newline : line.kind = .newline) {p' : Parser}
    (upcoming : p'.cursor.upcoming = line :: s.cursor.upcoming.map (Token.relocate move))
    (scope : p'.scope = s.scope) (depth : p'.depth ≤ s.depth) :
    ∃ r', Reads limit (.statements .eof) p' (Node.relocateAll move more) r' ∧
      r'.scope = r.scope := by
  have newline' : p'.token.kind = .newline := by rwa [Parser.token_of_upcoming upcoming]
  have behind : p'.advance.cursor.upcoming = s.cursor.upcoming.map (Token.relocate move) :=
    Parser.upcoming_advance (by simp [newline']) upcoming
  obtain ⟨r', reads, finish⟩ := h.statements_moved behind scope depth
  exact ⟨r', reads.statements_of_skipLines (Parser.skipLines_of_newline newline'), finish⟩

/-- The statements of an input, and behind a line end those of another that
begins in the scope where the first ends. -/
theorem Reads.statements_append {last : Token}
    {closes : ∀ token ∈ [last].head?, token.Closes}
    {closes' : ∀ token ∈ (line :: s.cursor.upcoming.map (Token.relocate move)).head?,
      token.Closes}
    (newline : line.kind = .newline) (after : Reads limit (.statements .eof) s more r)
    {p q : Parser} {nodes : List Node} :
    Reads limit (.statements .eof) p nodes q → q.cursor.remaining = 0 → s.scope = q.scope →
      s.depth = p.depth → ∀ p₀ p', p₀.skipLines = p.skipLines →
        Beside (.moved id closes closes') p₀ p' →
          ∃ r', Reads limit (.statements .eof) p' (nodes ++ Node.relocateAll move more) r' ∧
            r'.scope = r.scope
  | .noStatement ends, atEnd, scope, depth, p₀, p', lines, same => by
      rw [← lines] at atEnd scope
      have depth₀ : p₀.skipLines.depth = p.skipLines.depth := congrArg Parser.depth lines
      obtain ⟨s', upcoming, scope', depth', lines'⟩ := same.behindLines atEnd
      have room : s'.depth ≤ s.depth := by
        rw [depth', depth, ← Parser.depth_skipLines p, ← depth₀]
        exact same.depth_le
      obtain ⟨r', reads, finish⟩ := after.statements_behind newline upcoming
        (scope'.trans (same.scope_eq.trans scope.symm)) room
      exact ⟨r', reads.statements_of_skipLines lines'.symm, finish⟩
  | @Reads.statement _ _ _ p₁ _ node nodes noEnd noEof first ends rest,
      atEnd, scope, depth, p₀, p', lines, same => by
      rw [← lines] at noEnd noEof first
      have within : p₀.skipLines.Within [last] := Parser.within_of_ne noEof
      have lines' := (same.skipLines within).beside
      have kind : p'.skipLines.token.kind = p₀.skipLines.token.kind :=
        (lines'.inStep_of_within within).kind_eq
      obtain ⟨p₁', first', there⟩ := first.expression_moved (Parser.upTo_last p₁) lines'
      have depth₀ : p₀.skipLines.depth = p.skipLines.depth := congrArg Parser.depth lines
      have depth₁ : p₁.skipLines.depth = p.depth := first.depth_eq.trans depth₀
      obtain ⟨r', rest', finish⟩ :=
        after.statements_append newline rest atEnd scope (depth.trans depth₁.symm)
          p₁ p₁' (Parser.skipLines_skipLines p₁).symm there.toBeside
      rw [Node.relocate_id] at first'
      refine ⟨r', .statement (by rwa [kind]) (by rwa [kind]) first'
        (there.toBeside.endsStatement newline ends) ?_, finish⟩
      exact rest'.statements_of_skipLines (Parser.skipLines_skipLines p₁')

end

end RubyReader
