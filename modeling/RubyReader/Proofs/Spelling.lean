/-
# `Spelling` — tokens written out and read again

A token is spelled with the text it was read from; only a string is spelled anew, between
double quotes and with a backslash in front of each quote and each backslash:

    x   -1   ==   :s   "say \"so\""

Spelled with a blank between two of them, the tokens of a text are read again as they are,
also where something was wrong with the text (`lex_spelled`).
-/
import Mathlib
import RubyReader.Proofs.Token.Boundaries
import RubyReader.Proofs.Token.Concatenation

namespace RubyReader

open Lexer

/-! ## Spelling -/

/-- The inside of a double quoted string, as it is spelled. -/
def escaped (chars : List Char) : List Char :=
  chars.flatMap fun c => if c = '"' ∨ c = '\\' then ['\\', c] else [c]

def Token.spelling (token : Token) : String :=
  match token.kind with
  | .string => String.ofList ('"' :: (escaped token.literal.toList ++ ['"']))
  | .symbol => ":" ++ token.literal
  | _ => token.literal

/-- Tokens as a text, with a blank between two of them. -/
def spelled (tokens : List Token) : String := " ".intercalate (tokens.map Token.spelling)

/-! ## Strings -/

theorem escaped_cons_plain {c : Char} (noQuote : c ≠ '"') (noBackslash : c ≠ '\\')
    (chars : List Char) : escaped (c :: chars) = c :: escaped chars := by
  simp [escaped, noQuote, noBackslash]

theorem escaped_cons_special {c : Char} (special : c = '"' ∨ c = '\\') (chars : List Char) :
    escaped (c :: chars) = '\\' :: c :: escaped chars := by
  simp [escaped, special]

/-- Escapes are resolved again. -/
theorem unescape_escaped (chars : List Char) : unescape (escaped chars) = chars := by
  induction chars with
  | nil => rfl
  | cons c chars ih =>
      by_cases special : c = '"' ∨ c = '\\'
      · rw [escaped_cons_special special, unescape, ih]
        rcases special with rfl | rfl <;> rfl
      · rw [not_or] at special
        rw [escaped_cons_plain special.1 special.2, unescape, ih]
        rintro _ _ rfl
        exact absurd rfl special.2

/-- A spelled string ends with its closing quote. -/
theorem doubleQuotedTail_escaped (chars : List Char) :
    doubleQuotedTail (escaped chars ++ ['"']) = (.token .string, (escaped chars).length + 1) := by
  induction chars with
  | nil => rfl
  | cons c chars ih =>
      by_cases special : c = '"' ∨ c = '\\'
      · have noNewline : c ≠ '\n' := by
          rcases special with rfl | rfl <;> decide
        rw [escaped_cons_special special, List.cons_append, List.cons_append,
          doubleQuotedTail_escape noNewline, ih]
        rfl
      · rw [not_or] at special
        rw [escaped_cons_plain special.1 special.2, List.cons_append,
          doubleQuotedTail_cons special.1 special.2, ih]
        rfl

/-! ## Tokens -/

/-- A lexeme that is one by itself spells a token. -/
structure Spells (token : Token) (lexeme : Lexeme) : Prop where
  alone : Alone lexeme
  chars_eq : lexeme.chars = token.spelling.toList
  token_eq : ∀ position, token? position lexeme = some { token with position }

theorem spells_string {token : Token} (kind : token.kind = .string)
    (unsigned : token.signed = false) :
    Spells token ⟨.token .string, '"', escaped token.literal.toList ++ ['"']⟩ where
  alone := by
    show doubleQuotedTail _ = _
    rw [doubleQuotedTail_escaped, List.length_append]
    rfl
  chars_eq := by
    rw [Token.spelling, kind, String.toList_ofList]
    rfl
  token_eq position := by
    obtain ⟨_, literal, _, _⟩ := token
    obtain rfl := kind
    obtain rfl := unsigned
    simp [token?, content, unescape_escaped, Token.new, TokenKind.isNumber]

/-- Each token of a text is spelled by a lexeme: by its own, unless it is a string. -/
theorem exists_spells {lexeme : Lexeme} {kind : TokenKind} (alone : Alone lexeme)
    (cls : lexeme.cls = .token kind) (position : Position) :
    ∃ lexeme', Spells (.new kind (content kind lexeme) position) lexeme' := by
  by_cases string : kind = .string
  · exact ⟨_, spells_string string (by rw [string]; rfl)⟩
  refine ⟨lexeme, alone, ?_, fun position => by simp [token?, cls, Token.new]⟩
  by_cases symbol : kind = .symbol
  · subst symbol
    have first : lexeme.first = ':' := by
      have colon := begins_of_classify ((congrArg Prod.fst alone).trans cls)
      simpa [begins] using colon
    rw [Token.spelling]
    simp [Token.new, content, Lexeme.chars, first]
  · simp only [Token.spelling, Token.new, content]
    exact String.toList_ofList.symm

/-! ## Texts

Places do not matter to which tokens are among the lexemes of a text, so the lexemes can be
chosen token by token. -/

/-- The blank between two tokens. -/
def between : Lexeme := ⟨.blank, ' ', []⟩

/-- A blank in front of a token is one character. -/
theorem lexemes_between {lexeme : Lexeme} {kind : TokenKind} (alone : Alone lexeme)
    (cls : lexeme.cls = .token kind) (more : List Char) :
    lexemes (' ' :: (lexeme.chars ++ more)) = between :: lexemes (lexeme.chars ++ more) := by
  have visible : isSpace lexeme.first = false := by
    by_contra space
    have blank : (classify lexeme.first lexeme.rest).1 = .blank := by
      simp only [classify, if_pos (Bool.not_eq_false _ ▸ space)]
    rw [alone, cls] at blank
    cases blank
  have run : classify ' ' (lexeme.chars ++ more) = (.blank, 0) := by
    show (LexemeClass.blank, runLength isSpace (lexeme.first :: _)) = _
    simp [runLength, visible]
  rw [lexemes_cons, run]
  rfl

/-- With a blank between two of them, tokens that are lexemes by themselves are the lexemes
of a text, and the blanks are. -/
theorem lexemes_intercalate {list : List Lexeme}
    (tokens : ∀ lexeme ∈ list, Alone lexeme ∧ ∃ kind, lexeme.cls = .token kind) :
    lexemes ([' '].intercalate (list.map Lexeme.chars)) = list.intersperse between := by
  induction list with
  | nil => exact lexemes_nil
  | cons lexeme list ih =>
      obtain ⟨⟨alone, kind, cls⟩, others⟩ := List.forall_mem_cons.mp tokens
      cases list with
      | nil =>
          have all := alone.lexemes_append cls .nil
          rw [List.append_nil, lexemes_nil] at all
          simpa [List.intercalate] using all
      | cons next list =>
          obtain ⟨⟨alone', kind', cls'⟩, _⟩ := List.forall_mem_cons.mp others
          obtain ⟨more, begins⟩ : ∃ more,
              [' '].intercalate ((next :: list).map Lexeme.chars) = next.chars ++ more := by
            cases list with
            | nil => exact ⟨[], by simp [List.intercalate]⟩
            | cons last list =>
                exact ⟨' ' :: [' '].intercalate ((last :: list).map Lexeme.chars),
                  by simp [List.intercalate]⟩
          have split : [' '].intercalate ((lexeme :: next :: list).map Lexeme.chars)
              = lexeme.chars ++ ' ' :: [' '].intercalate ((next :: list).map Lexeme.chars) := by
            simp [List.intercalate]
          rw [split, alone.lexemes_append cls (.space _), begins, lexemes_between alone' cls',
            ← begins, ih others]
          rfl

/-- The tokens among lexemes, at no place. -/
def tokensOf (list : List Lexeme) : List Token := list.filterMap (token? .start)

theorem tokensOf_cons (lexeme : Lexeme) (list : List Lexeme) :
    tokensOf (lexeme :: list) = (token? .start lexeme).toList ++ tokensOf list := by
  rw [tokensOf, List.filterMap_cons]
  cases token? .start lexeme <;> rfl

theorem tokensOf_intersperse (list : List Lexeme) :
    tokensOf (list.intersperse between) = tokensOf list := by
  induction list with
  | nil => rfl
  | cons lexeme list ih =>
      cases list with
      | nil => rfl
      | cons next list =>
          rw [List.intersperse_cons_cons, tokensOf_cons, tokensOf_cons, ih, tokensOf_cons lexeme]
          rfl

theorem placed_relocate (position : Position) (list : List Lexeme) :
    ((placedFrom position list).filterMap fun (place, lexeme) => token? place lexeme).map
      (Token.relocate nowhere) = tokensOf list := by
  induction list generalizing position with
  | nil => rfl
  | cons lexeme list ih =>
      rw [tokensOf_cons, ← ih (position.after lexeme.chars), placedFrom, List.filterMap_cons,
        show Position.start = nowhere position from rfl, token?_relocate]
      cases found : token? position lexeme <;> simp [found]

theorem tokens_relocate (text : String) :
    (lex text).tokens.map (Token.relocate nowhere)
      = tokensOf (lexemes text.toList) ++ [.endOfInput .start] := by
  rw [lex_tokens_eq, List.map_append, placed_relocate]
  rfl

theorem mem_intersperse {lexeme : Lexeme} {list : List Lexeme}
    (mem : lexeme ∈ list.intersperse between) : lexeme ∈ list ∨ lexeme = between := by
  induction list with
  | nil => cases mem
  | cons first list ih =>
      cases list with
      | nil => exact .inl mem
      | cons next list =>
          rw [List.intersperse_cons_cons, List.mem_cons, List.mem_cons] at mem
          rcases mem with rfl | rfl | mem
          · exact .inl List.mem_cons_self
          · exact .inr rfl
          · exact (ih mem).imp (List.mem_cons_of_mem _) id

theorem exists_lexemes {tokens : List Token}
    (spellable : ∀ token ∈ tokens, ∃ lexeme, Spells token lexeme) :
    ∃ list : List Lexeme, list.map Lexeme.chars = tokens.map (String.toList ∘ Token.spelling) ∧
      tokensOf list = tokens.map (Token.relocate nowhere) ∧
      ∀ lexeme ∈ list, Alone lexeme ∧ ∃ kind, lexeme.cls = .token kind := by
  induction tokens with
  | nil => exact ⟨[], rfl, rfl, nofun⟩
  | cons token tokens ih =>
      obtain ⟨⟨lexeme, spells⟩, others⟩ := List.forall_mem_cons.mp spellable
      obtain ⟨list, chars, same, alone⟩ := ih others
      refine ⟨lexeme :: list, ?_, ?_, List.forall_mem_cons.mpr ⟨⟨spells.alone, ?_⟩, alone⟩⟩
      · rw [List.map_cons, List.map_cons, chars, spells.chars_eq]
        rfl
      · rw [tokensOf_cons, spells.token_eq, same]
        rfl
      · obtain ⟨kind, cls, -⟩ := token?_eq_some_iff.mp (spells.token_eq .start)
        exact ⟨kind, cls⟩

/-- The tokens of a text, spelled with a blank between two of them, are read again as
they are, up to the end of the input, and nothing is wrong with their text. -/
theorem lex_spelled (text : String) :
    (lex (spelled (lex text).tokens.dropLast)).report.first? = none ∧
      (lex (spelled (lex text).tokens.dropLast)).tokens.map (Token.relocate nowhere)
        = (lex text).tokens.map (Token.relocate nowhere) ∧
      ∃ front last, (lex text).tokens = front ++ [last] ∧ last.kind = .eof ∧
        ∀ token ∈ front, token.kind ≠ .eof := by
  obtain ⟨front, last, all, ends, only⟩ := lex_tokens_ends text
  obtain ⟨front_eq, last_eq⟩ := List.append_inj' (all.symm.trans (lex_tokens_eq text)) rfl
  have spellable : ∀ token ∈ front, ∃ lexeme, Spells token lexeme := by
    intro token mem
    rw [front_eq] at mem
    obtain ⟨lexeme, among, kind, position, cls, rfl⟩ := exists_lexeme mem
    exact exists_spells (alone_of_mem among) cls position
  obtain ⟨list, chars, same, alone⟩ := exists_lexemes spellable
  have read : lexemes (spelled front).toList = list.intersperse between := by
    rw [spelled, String.toList_intercalate, List.map_map, ← chars]
    exact lexemes_intercalate alone
  have again := tokens_relocate (spelled front)
  rw [read, tokensOf_intersperse, same] at again
  rw [all, List.dropLast_concat]
  refine ⟨(first?_eq_none_iff _).mpr fun lexeme mem => ?_, ?_, front, last, rfl, ends, only⟩
  · rw [read] at mem
    rcases mem_intersperse mem with mem | rfl
    · obtain ⟨-, kind, cls⟩ := alone lexeme mem
      simp [cls]
    · simp [between]
  · rw [again, List.map_append, last_eq]
    rfl

example : spelled (lex "x=-1\n'a\"b' @ y.f:s").tokens.dropLast = "x = -1 \n \"a\\\"b\" y . f :s" := by
  cbv

end RubyReader
