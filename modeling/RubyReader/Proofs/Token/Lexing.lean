/-
# `Lexing` — where the lexemes of a text stand

The lexemes of a text tile it, so each one begins where those before it end
(`placed_eq`).  Places therefore grow from lexeme to lexeme, and no two tokens of
a text stand at the same one (`positions_lex`).  What a token is shows in its first
character (`begins_of_classify`); only the last token ends the input (`lex_tokens_ends`).
-/
import RubyReader.Proofs.Source.Positions
import RubyReader.Token.Lexer

namespace RubyReader.Lexer

/-! ## Lexemes tile the text -/

theorem lexemes_nil : lexemes [] = [] := by rw [lexemes]

theorem lexemes_cons (c : Char) (cs : List Char) :
    lexemes (c :: cs) = ⟨(classify c cs).1, c, cs.take (classify c cs).2⟩
      :: lexemes (cs.drop (classify c cs).2) := by
  rw [lexemes]

theorem lexemes_induction {motive : List Char → Prop} (nil : motive [])
    (cons : ∀ c cs, motive (cs.drop (classify c cs).2) → motive (c :: cs))
    (chars : List Char) : motive chars := by
  induction left : chars.length using Nat.strongRecOn generalizing chars with
  | ind left' ih =>
      cases chars with
      | nil => exact nil
      | cons c cs =>
          refine cons c cs (ih _ ?_ _ rfl)
          rw [← left, List.length_drop, List.length_cons]
          omega

/-- Nothing of a text is lost in its lexemes. -/
theorem flatMap_chars_lexemes (chars : List Char) :
    (lexemes chars).flatMap Lexeme.chars = chars := by
  induction chars using lexemes_induction with
  | nil => simp [lexemes_nil]
  | cons c cs ih => simp [lexemes_cons, ih, Lexeme.chars]

/-! ## Places

Each lexeme begins where those before it end.  The tokens and the errors of a text are made
from some of the lexemes, so both stand one after the other. -/

/-- Lexemes with their places, the first at `position`. -/
def placedFrom (position : Position) : List Lexeme → List (Position × Lexeme)
  | [] => []
  | lexeme :: rest => (position, lexeme) :: placedFrom (position.after lexeme.chars) rest

theorem placedFrom_append (position : Position) (list more : List Lexeme) :
    placedFrom position (list ++ more)
      = placedFrom position list
        ++ placedFrom (position.after (list.flatMap Lexeme.chars)) more := by
  induction list generalizing position with
  | nil => rfl
  | cons lexeme rest ih =>
      rw [List.cons_append, placedFrom, ih, List.flatMap_cons, Position.after_append]
      rfl

theorem placed_eq_from (before : List Char) (list : List Lexeme) :
    (withOffsets (byteLength before) list).map
        (fun (offset, lexeme) =>
          ((Lines.ofChars (before ++ list.flatMap Lexeme.chars)).positionOf offset, lexeme))
      = placedFrom (Position.start.after before) list := by
  induction list generalizing before with
  | nil => rfl
  | cons lexeme rest ih =>
      have here := ih (before ++ lexeme.chars)
      rw [byteLength_append, List.append_assoc, Position.after_append] at here
      rw [withOffsets, List.map_cons, List.flatMap_cons, here]
      simp only [Lines.positionOf_boundary]
      rfl

/-- Each lexeme begins where those before it end. -/
theorem placed_eq (chars : List Char) : placed chars = placedFrom .start (lexemes chars) := by
  have h := placed_eq_from [] (lexemes chars)
  rw [List.nil_append, flatMap_chars_lexemes] at h
  exact h

theorem lex_tokens_eq (text : String) :
    (lex text).tokens
      = ((placedFrom .start (lexemes text.toList)).filterMap fun (position, lexeme) =>
          token? position lexeme)
        ++ [.endOfInput (Position.start.after text.toList)] := by
  have atEnd := Lines.positionOf_boundary text.toList []
  rw [List.append_nil] at atEnd
  simp only [lex, placed_eq, atEnd]

theorem lex_errors_eq (text : String) :
    (lex text).report.errors
      = (placedFrom .start (lexemes text.toList)).filterMap fun (position, lexeme) =>
          error? position lexeme := by
  simp only [lex, placed_eq]

theorem token?_eq_some_iff {position : Position} {lexeme : Lexeme} {token : Token} :
    token? position lexeme = some token ↔
      ∃ kind, lexeme.cls = .token kind ∧ .new kind (content kind lexeme) position = token := by
  unfold token?
  split
  · rename_i kind cls
    simp [cls]
  · rename_i other
    exact ⟨nofun, fun ⟨kind, cls, _⟩ => absurd cls (other kind)⟩

theorem position_token {position : Position} {lexeme : Lexeme} {token : Token}
    (h : token? position lexeme = some token) : token.position = position := by
  obtain ⟨kind, -, rfl⟩ := token?_eq_some_iff.mp h
  rfl

theorem mem_of_placedFrom {position : Position} {list : List Lexeme} {place : Position}
    {lexeme : Lexeme} (mem : (place, lexeme) ∈ placedFrom position list) : lexeme ∈ list := by
  induction list generalizing position with
  | nil => cases mem
  | cons head rest ih =>
      rw [placedFrom, List.mem_cons] at mem
      rcases mem with e | mem
      · rw [(Prod.mk.inj e).2]
        exact List.mem_cons_self
      · exact List.mem_cons_of_mem _ (ih mem)

theorem exists_lexeme {start : Position} {list : List Lexeme} {token : Token}
    (mem : token ∈ (placedFrom start list).filterMap fun (place, lexeme) => token? place lexeme) :
    ∃ lexeme ∈ list, ∃ kind position,
      lexeme.cls = .token kind ∧ .new kind (content kind lexeme) position = token := by
  obtain ⟨⟨position, lexeme⟩, placed, found⟩ := List.mem_filterMap.mp mem
  obtain ⟨kind, made⟩ := token?_eq_some_iff.mp found
  exact ⟨lexeme, mem_of_placedFrom placed, kind, position, made⟩

/-- All places from a position on, up to where the text ends, come one after
the other. -/
theorem before_placedFrom (position : Position) (list : List Lexeme) :
    (∀ place ∈ (placedFrom position list).map Prod.fst,
        place = position ∨ position.Before place) ∧
      ((placedFrom position list).map Prod.fst
        ++ [position.after (list.flatMap Lexeme.chars)]).Pairwise Position.Before := by
  induction list generalizing position with
  | nil => simp [placedFrom]
  | cons lexeme rest ih =>
      have on : position.Before (position.after lexeme.chars) :=
        Position.before_after (List.cons_ne_nil _ _)
      obtain ⟨later, sorted⟩ := ih (position.after lexeme.chars)
      refine ⟨?_, ?_⟩
      · intro place mem
        rw [placedFrom, List.map_cons, List.mem_cons] at mem
        rcases mem with rfl | mem
        · exact Or.inl rfl
        · rcases later place mem with rfl | h
          · exact Or.inr on
          · exact Or.inr (on.trans h)
      · rw [placedFrom, List.map_cons, List.cons_append, List.flatMap_cons,
          Position.after_append, List.pairwise_cons]
        refine ⟨?_, sorted⟩
        intro place mem
        rcases List.mem_append.mp mem with mem | mem
        · rcases later place mem with rfl | h
          · exact on
          · exact on.trans h
        · rw [List.mem_singleton] at mem
          subst mem
          rw [← Position.after_append]
          exact Position.before_after (List.cons_ne_nil _ _)

/-- What is made of lexemes, each at its place, stands at some of the places. -/
theorem map_filterMap_sublist {α : Type} (make : Position → Lexeme → Option α)
    {place : α → Position}
    (keeps : ∀ position lexeme found, make position lexeme = some found → place found = position)
    (places : List (Position × Lexeme)) :
    ((places.filterMap fun (position, lexeme) => make position lexeme).map place).Sublist
      (places.map Prod.fst) := by
  induction places with
  | nil => exact List.Sublist.refl _
  | cons head rest ih =>
      obtain ⟨position, lexeme⟩ := head
      rw [List.filterMap_cons, List.map_cons]
      split
      · exact ih.cons _
      · rename_i found made
        rw [List.map_cons, keeps position lexeme found made]
        exact ih.cons_cons _

/-- All places of a text stand one after the other, and its end behind them. -/
theorem places_pairwise (text : String) :
    ((placedFrom .start (lexemes text.toList)).map Prod.fst
      ++ [Position.start.after text.toList]).Pairwise Position.Before := by
  have sorted := (before_placedFrom .start (lexemes text.toList)).2
  rwa [flatMap_chars_lexemes] at sorted

theorem positions_lex (text : String) :
    ((lex text).tokens.map Token.position).Pairwise Position.Before := by
  refine (places_pairwise text).sublist ?_
  rw [lex_tokens_eq, List.map_append]
  exact (map_filterMap_sublist token? (fun _ _ _ => position_token) _).append (List.Sublist.refl _)

theorem position_error {position : Position} {lexeme : Lexeme} {error : SyntaxError}
    (h : error? position lexeme = some error) : error.position = position := by
  unfold error? at h
  split at h
  · cases h
    rfl
  · cases h
    rfl
  · cases h

theorem positions_errors (text : String) :
    ((lex text).report.errors.map SyntaxError.position).Pairwise Position.Before := by
  refine (places_pairwise text).sublist ?_
  rw [lex_errors_eq]
  exact (map_filterMap_sublist error? (fun _ _ _ => position_error) _).trans
    (List.sublist_append_left _ _)

/-! ## A token and its first character -/

/-- Whether a token of a kind may begin with a character. -/
def begins (kind : TokenKind) (c : Char) : Bool :=
  match kind with
  | .identifier | .kwTrue | .kwFalse | .kwNil | .kwDef | .kwEnd => isWordStart c
  | .integer | .float => c.isDigit || c = '+' || c = '-'
  | .string => c = '"' || c = '\''
  | .symbol | .colon => c = ':'
  | .plus => c = '+'
  | .minus => c = '-'
  | .times => c = '*'
  | .divide => c = '/'
  | .assign | .equal => c = '='
  | .less | .lessEqual => c = '<'
  | .greater | .greaterEqual => c = '>'
  | .lparen => c = '('
  | .rparen => c = ')'
  | .comma => c = ','
  | .dot => c = '.'
  | .question => c = '?'
  | .newline => c = '\n' || c = ';'
  | .invalid | .eof => false

theorem begins_wordKind (text : List Char) (c : Char) :
    begins (wordKind text) c = isWordStart c := by
  unfold wordKind TokenKind.keyword?
  split <;> rfl

theorem begins_numberTail (chars : List Char) (c : Char) :
    begins (numberTail chars).1 c = (c.isDigit || c = '+' || c = '-') := by
  simp only [numberTail]
  split
  · split <;> rfl
  · rfl

theorem begins_signTail {operator : TokenKind} {c : Char} (h : begins operator c = true)
    (sign : c = '+' ∨ c = '-') (chars : List Char) :
    begins (signTail operator chars).1 c = true := by
  unfold signTail
  split
  · split
    · show begins (numberTail _).1 c = true
      rw [begins_numberTail]
      rcases sign with rfl | rfl <;> rfl
    · exact h
  · exact h

theorem begins_colonTail (chars : List Char) : begins (colonTail chars).1 ':' = true := by
  unfold colonTail
  split
  · split <;> rfl
  · rfl

theorem begins_comparisonTail {alone withEqual : TokenKind} {c : Char}
    (h : begins alone c = true) (h' : begins withEqual c = true) (chars : List Char) :
    begins (comparisonTail alone withEqual chars).1 c = true := by
  unfold comparisonTail
  split
  · exact h'
  · exact h

theorem doubleQuotedTail_cls (chars : List Char) :
    (doubleQuotedTail chars).1 = .openString ∨ (doubleQuotedTail chars).1 = .token .string := by
  fun_induction doubleQuotedTail chars <;> simp_all

theorem singleQuotedTail_cls (chars : List Char) :
    (singleQuotedTail chars).1 = .openString ∨ (singleQuotedTail chars).1 = .token .string := by
  simp only [singleQuotedTail]
  split <;> simp

theorem begins_of_classify {c : Char} {cs : List Char} {kind : TokenKind}
    (h : (classify c cs).1 = .token kind) : begins kind c = true := by
  have lifted {found : TokenKind × Nat} (first : begins found.1 c = true)
      (h : (classify.lift found).1 = .token kind) : begins kind c = true := by
    obtain rfl := LexemeClass.token.inj h
    exact first
  have quoted {cls : LexemeClass} (string : cls = .openString ∨ cls = .token .string)
      (h : cls = .token kind) (quote : c = '"' ∨ c = '\'') : begins kind c = true := by
    rcases string with rfl | rfl
    · cases h
    · obtain rfl := LexemeClass.token.inj h
      rcases quote with rfl | rfl <;> rfl
  unfold classify at h
  split at h
  · cases h
  · split at h
    · rename_i start
      obtain rfl := LexemeClass.token.inj h
      rwa [begins_wordKind]
    · split at h
      · rename_i digit
        refine lifted ?_ h
        rw [begins_numberTail, digit]
        rfl
      · split at h
        · cases h
        · exact lifted (begins_signTail rfl (.inl rfl) cs) h
        · exact lifted (begins_signTail rfl (.inr rfl) cs) h
        · exact quoted (doubleQuotedTail_cls cs) h (.inl rfl)
        · exact quoted (singleQuotedTail_cls cs) h (.inr rfl)
        · exact lifted (begins_colonTail cs) h
        · exact lifted (begins_comparisonTail rfl rfl cs) h
        · exact lifted (begins_comparisonTail rfl rfl cs) h
        · exact lifted (begins_comparisonTail rfl rfl cs) h
        all_goals cases h <;> rfl

/-! ## Only the last token ends the input -/

theorem classify_ne_eof (c : Char) (cs : List Char) : (classify c cs).1 ≠ .token .eof :=
  fun eof => nomatch begins_of_classify eof

theorem cls_ne_eof {chars : List Char} {lexeme : Lexeme} (mem : lexeme ∈ lexemes chars) :
    lexeme.cls ≠ .token .eof := by
  induction chars using lexemes_induction with
  | nil => simp [lexemes_nil] at mem
  | cons c cs ih =>
      rw [lexemes_cons, List.mem_cons] at mem
      rcases mem with rfl | mem
      · exact classify_ne_eof c cs
      · exact ih mem

/-- The tokens of a text end the input once, at its end. -/
theorem lex_tokens_ends (text : String) :
    ∃ tokens last, (lex text).tokens = tokens ++ [last] ∧ last.kind = .eof ∧
      ∀ token ∈ tokens, token.kind ≠ .eof := by
  refine ⟨_, _, lex_tokens_eq text, rfl, fun token mem => ?_⟩
  obtain ⟨lexeme, among, kind, position, cls, rfl⟩ := exists_lexeme mem
  exact fun eof => cls_ne_eof among (cls.trans (congrArg LexemeClass.token eof))

end RubyReader.Lexer
