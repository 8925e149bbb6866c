/-
# `Lexing` — tokens, with every cut checked

A lexeme is a part of its text.  Its token stands at the position of the first byte, and
what is taken off a string or a symbol is one byte at either end:

    string   slice? 1 (length - 1)    without both quotes
    symbol   splitBytes? 1            without the colon

Quotes and colons are single bytes (`Alone.quoted`), so nothing of this is ever outside its
domain, and the tokens and errors are those of `lex` (`lex?_eq`).
-/
import RubyReader.Proofs.Checked.Slices
import RubyReader.Proofs.Token.Boundaries

namespace RubyReader

namespace Lexer

/-! ## Quotes -/

/-- A text that is nothing but the rest of a double quoted string ends with its quote. -/
theorem exists_doubleQuoted {cs : List Char}
    (closed : doubleQuotedTail cs = (.token .string, cs.length)) :
    ∃ inside, cs = inside ++ ['"'] := by
  induction cs using doubleQuoted_induction with
  | nil => cases closed
  | close more =>
      have length := (Prod.mk.inj closed).2
      obtain rfl := List.eq_nil_of_length_eq_zero (Nat.succ.inj length).symm
      exact ⟨[], rfl⟩
  | lone => cases closed
  | newline more => cases closed
  | escape c more noNewline ih =>
      rw [doubleQuotedTail_escape noNewline] at closed
      obtain ⟨string, length⟩ := Prod.mk.inj closed
      obtain ⟨inside, rfl⟩ := ih (Prod.ext string (Nat.add_right_cancel length))
      exact ⟨'\\' :: c :: inside, rfl⟩
  | cons c more noQuote noBackslash ih =>
      rw [doubleQuotedTail_cons noQuote noBackslash] at closed
      obtain ⟨string, length⟩ := Prod.mk.inj closed
      obtain ⟨inside, rfl⟩ := ih (Prod.ext string (Nat.add_right_cancel length))
      exact ⟨c :: inside, rfl⟩

theorem exists_singleQuoted {cs : List Char}
    (closed : singleQuotedTail cs = (.token .string, cs.length)) :
    ∃ inside, cs = inside ++ ['\''] := by
  obtain ⟨run, left, rfl, all, stops⟩ := exists_run cs fun c => c ≠ '\''
  have length : runLength (fun c => c ≠ '\'') (run ++ left) = run.length :=
    (runLength_append stops).trans all
  simp only [singleQuotedTail, length, List.length_append] at closed
  split at closed
  · obtain ⟨c, rfl⟩ := List.length_eq_one_iff.mp (Nat.add_left_cancel (Prod.mk.inj closed).2).symm
    have quote : c = '\'' := by simpa using stops c rfl
    exact ⟨run, by rw [quote]⟩
  · cases (Prod.mk.inj closed).1

variable {lexeme : Lexeme} {kind : TokenKind}

theorem Alone.quoted (alone : Alone lexeme) (string : lexeme.cls = .token .string) :
    ∃ inside quote, lexeme.rest = inside ++ [quote] ∧ lexeme.first.utf8Size = 1 ∧
      quote.utf8Size = 1 := by
  obtain ⟨cls, first, rest⟩ := lexeme
  obtain rfl : cls = .token .string := string
  have found : classify first rest = (.token .string, rest.length) := alone
  have opening : first = '"' ∨ first = '\'' := by
    simpa [begins] using begins_of_classify (congrArg Prod.fst found)
  rcases opening with rfl | rfl
  · obtain ⟨inside, rfl⟩ := exists_doubleQuoted found
    exact ⟨inside, '"', rfl, rfl, rfl⟩
  · obtain ⟨inside, rfl⟩ := exists_singleQuoted found
    exact ⟨inside, '\'', rfl, rfl, rfl⟩

/-- What is left of a string without the first and the last byte. -/
theorem Alone.slice?_string (alone : Alone lexeme) (string : lexeme.cls = .token .string) :
    ∃ stop, minus? (byteLength lexeme.chars) 1 = some stop ∧
      slice? 1 stop lexeme.chars = some lexeme.rest.dropLast := by
  obtain ⟨inside, quote, rest, first, last⟩ := alone.quoted string
  have opening : byteLength [lexeme.first] = 1 := by rw [byteLength_cons, first, byteLength_nil]
  have closing : byteLength [quote] = 1 := by rw [byteLength_cons, last, byteLength_nil]
  have chars : lexeme.chars = [lexeme.first] ++ inside ++ [quote] := by
    rw [Lexeme.chars, rest]
    rfl
  refine ⟨byteLength ([lexeme.first] ++ inside), ?_, ?_⟩
  · rw [chars, byteLength_append, closing]
    exact minus?_of_le (Nat.le_add_left ..)
  · have cut := slice?_append [lexeme.first] inside [quote]
    rw [opening, ← chars] at cut
    rw [cut, rest, List.dropLast_concat]

/-! ## Contents -/

/-- The content of a token, cut out of the text of its lexeme. -/
def content? (kind : TokenKind) (slice : List Char) : Option String :=
  match kind with
  | .string => do
    let stop ← minus? (byteLength slice) 1
    let inside ← slice? 1 stop slice
    some (String.ofList (if slice.head? = some '"' then unescape inside else inside))
  | .symbol => (splitBytes? 1 slice).map fun (_, name) => String.ofList name
  | _ => some (String.ofList slice)

theorem content?_eq (alone : Alone lexeme) (cls : lexeme.cls = .token kind) :
    content? kind lexeme.chars = some (content kind lexeme) := by
  unfold content?
  split
  · obtain ⟨stop, length, inside⟩ := alone.slice?_string cls
    have head : lexeme.chars.head? = some lexeme.first := rfl
    simp [length, inside, head, content]
  · have found : (classify lexeme.first lexeme.rest).1 = .token .symbol := by rw [alone, cls]
    have colon : lexeme.first = ':' := by simpa [begins] using begins_of_classify found
    rw [Lexeme.chars, splitBytes?_one (by rw [colon]; rfl)]
    rfl
  · simp only [content]
    rfl

/-! ## Lexemes -/

/-- The token or the error of a lexeme that begins at an offset of a text. -/
def found? (chars : List Char) : Nat × Lexeme → Option (Option Token × Option SyntaxError)
  | (offset, lexeme) => do
    let slice ← slice? offset (offset + byteLength lexeme.chars) chars
    let position ← position? chars offset
    match lexeme.cls with
    | .token kind => (content? kind slice).map fun text => (some (.new kind text position), none)
    | _ => some (none, error? position lexeme)

theorem found?_eq (alone : Alone lexeme) (front back : List Char) :
    found? (front ++ lexeme.chars ++ back) (byteLength front, lexeme)
      = some (token? (Position.start.after front) lexeme,
          error? (Position.start.after front) lexeme) := by
  have slice : slice? (byteLength front) (byteLength front + byteLength lexeme.chars)
      (front ++ lexeme.chars ++ back) = some lexeme.chars := by
    rw [← byteLength_append]
    exact slice?_append front lexeme.chars back
  have position : position? (front ++ lexeme.chars ++ back) (byteLength front)
      = some (Position.start.after front) := by
    rw [List.append_assoc, position?_boundary, Lines.positionOf_boundary]
  simp only [found?, slice, position, Option.bind_eq_bind, Option.bind_some]
  cases cls : lexeme.cls with
  | token kind => simp [content?_eq alone cls, token?, error?, cls]
  | blank => simp [token?, error?, cls]
  | openString => simp [token?, error?, cls]
  | stray => simp [token?, error?, cls]

theorem mapM_found? (front : List Char) {list : List Lexeme}
    (alone : ∀ lexeme ∈ list, Alone lexeme) :
    (withOffsets (byteLength front) list).mapM (found? (front ++ list.flatMap Lexeme.chars))
      = some ((placedFrom (Position.start.after front) list).map fun (position, lexeme) =>
          (token? position lexeme, error? position lexeme)) := by
  induction list generalizing front with
  | nil => rfl
  | cons lexeme rest ih =>
      have first := found?_eq (alone lexeme List.mem_cons_self) front (rest.flatMap Lexeme.chars)
      have others := ih (front ++ lexeme.chars) fun l mem => alone l (List.mem_cons_of_mem _ mem)
      rw [byteLength_append, Position.after_append] at others
      rw [withOffsets, List.flatMap_cons, ← List.append_assoc, List.mapM_cons, first,
        Option.bind_eq_bind, Option.bind_some, others]
      rfl

end Lexer

/-- Reads a whole text as tokens, with every cut checked. -/
def lex? (text : String) : Option Lexed := do
  let chars := text.toList
  let found ← (Lexer.withOffsets 0 (Lexer.lexemes chars)).mapM (Lexer.found? chars)
  let atEnd ← position? chars (byteLength chars)
  some
    { tokens := found.filterMap Prod.fst ++ [.endOfInput atEnd]
      report := ⟨found.filterMap Prod.snd⟩ }

/-- No cut is outside its domain, in any text. -/
theorem lex?_eq (text : String) : lex? text = some (lex text) := by
  have alone : ∀ lexeme ∈ Lexer.lexemes text.toList, Lexer.Alone lexeme := fun _ =>
    Lexer.alone_of_mem
  have found := Lexer.mapM_found? [] alone
  rw [Lexer.flatMap_chars_lexemes, List.nil_append, byteLength_nil, Position.after_nil] at found
  have atEnd := position?_boundary text.toList []
  rw [Lines.positionOf_boundary, List.append_nil] at atEnd
  rw [lex?, found, Option.bind_eq_bind, Option.bind_some, atEnd, Option.bind_eq_bind,
    Option.bind_some, List.filterMap_map, List.filterMap_map]
  have all : lex text = ⟨(lex text).tokens, ⟨(lex text).report.errors⟩⟩ := rfl
  rw [all, Lexer.lex_tokens_eq, Lexer.lex_errors_eq]
  rfl

end RubyReader
