/-
# `Tiling` — a text is its lexemes, one behind the other

A tile is a lexeme of a text between those before it and those behind it.  The tiles
cover the text, each at the place to which the characters in front of it lead, and the
tokens and the errors of the text are made from them in order (`lex_tiles`).  What a
lexeme is depends on nothing in front of it, so a text that is read from the first
character of a tile on has the lexemes from that tile on (`Tile.lexemes_drop`).
-/
import Mathlib
import RubyReader.Proofs.Token.Lexing

namespace RubyReader

open Lexer

/-! ## Tiles

A tile is a lexeme with those in front of it and those behind it, so its place is where the
characters in front of it lead. -/

/-- A lexeme, between those before it and those behind it. -/
structure Tile where
  before : List Lexeme
  lexeme : Lexeme
  behind : List Lexeme
deriving DecidableEq

namespace Tile

def front (tile : Tile) : List Char := tile.before.flatMap Lexeme.chars

def position (tile : Tile) : Position := .behind tile.front

def ofLexemes (before : List Lexeme) : List Lexeme → List Tile
  | [] => []
  | lexeme :: behind => ⟨before, lexeme, behind⟩ :: ofLexemes (before ++ [lexeme]) behind

def all (text : String) : List Tile := ofLexemes [] (lexemes text.toList)

theorem map_lexeme_ofLexemes (before list : List Lexeme) :
    (ofLexemes before list).map lexeme = list := by
  induction list generalizing before with
  | nil => rfl
  | cons head rest ih => exact congrArg (head :: ·) (ih (before ++ [head]))

/-- With its neighbours every tile is the whole list. -/
theorem eq_of_mem_ofLexemes {before list : List Lexeme} {tile : Tile}
    (mem : tile ∈ ofLexemes before list) :
    tile.before ++ tile.lexeme :: tile.behind = before ++ list := by
  induction list generalizing before with
  | nil => cases mem
  | cons head rest ih =>
      rcases List.mem_cons.mp mem with rfl | mem
      · rfl
      · rw [ih mem, List.append_assoc]
        rfl

/-- The places that are added up lexeme by lexeme are those of the tiles. -/
theorem placedFrom_eq (before list : List Lexeme) :
    placedFrom (.behind (before.flatMap Lexeme.chars)) list
      = (ofLexemes before list).map fun tile => (tile.position, tile.lexeme) := by
  induction list generalizing before with
  | nil => rfl
  | cons head rest ih =>
      have further : (Position.behind (before.flatMap Lexeme.chars)).after head.chars
          = .behind ((before ++ [head]).flatMap Lexeme.chars) := by
        rw [← Position.after_start, ← Position.after_append, Position.after_start,
          List.flatMap_append, List.flatMap_singleton]
      rw [placedFrom, further, ih]
      rfl

theorem filterMap_placedFrom {α : Type} (make : Position → Lexeme → Option α) (text : String) :
    ((placedFrom .start (lexemes text.toList)).filterMap fun (place, lexeme) => make place lexeme)
      = (all text).filterMap fun tile => make tile.position tile.lexeme := by
  have placed := placedFrom_eq [] (lexemes text.toList)
  rw [List.flatMap_nil, ← Position.after_start, Position.after_nil] at placed
  rw [placed, List.filterMap_map]
  rfl

end Tile

/-! ## Reading on from a tile -/

/-- The lexemes of what stands behind some lexemes are those behind them. -/
theorem Lexer.lexemes_flatMap_behind {chars : List Char} {before behind : List Lexeme}
    (split : lexemes chars = before ++ behind) :
    lexemes (behind.flatMap Lexeme.chars) = behind := by
  induction before generalizing chars with
  | nil =>
      rw [List.nil_append] at split
      rw [← split, flatMap_chars_lexemes]
  | cons head before ih =>
      cases chars with
      | nil =>
          rw [lexemes_nil] at split
          cases split
      | cons c cs =>
          rw [lexemes_cons] at split
          exact ih (List.cons.inj split).2

/-- From the first character of a tile on a text is read as the tile and what is behind it. -/
theorem Tile.lexemes_drop {text : String} {tile : Tile} (mem : tile ∈ all text) :
    lexemes (text.toList.drop tile.front.length) = tile.lexeme :: tile.behind := by
  have split : lexemes text.toList = tile.before ++ tile.lexeme :: tile.behind :=
    (eq_of_mem_ofLexemes mem).symm
  have whole : tile.front ++ (tile.lexeme :: tile.behind).flatMap Lexeme.chars = text.toList := by
    rw [front, ← List.flatMap_append, ← split, flatMap_chars_lexemes]
  rw [← whole, List.drop_left]
  exact lexemes_flatMap_behind split

/-! ## The tokens and the errors of a text -/

/-- The error that is met first is the leftmost one. -/
theorem Report.first?_of_pairwise {report : Report}
    (sorted : (report.errors.map SyntaxError.position).Pairwise Position.Before) :
    ∀ error ∈ report.errors, ∃ first, report.first? = some first ∧
      (error = first ∨ first.position.Before error.position) := by
  intro error mem
  obtain ⟨errors⟩ := report
  cases errors with
  | nil => cases mem
  | cons first rest =>
      refine ⟨first, rfl, ?_⟩
      rcases List.mem_cons.mp mem with same | later
      · exact .inl same
      · exact .inr (List.rel_of_pairwise_cons sorted (List.mem_map_of_mem later))

/-- The tiles cover the text in order, each between the lexemes before it and those
behind it, with which a reading from its first character on begins.  The tokens and the
errors of a text are made from its tiles, each at the place of the first character of its
own; both stand one after the other, the errors from the leftmost one on and the tokens up
to the only end of the input, at the end of the text. -/
theorem lex_tiles (text : String) :
    ((Tile.all text).flatMap fun tile => tile.lexeme.chars) = text.toList ∧
      (∀ tile ∈ Tile.all text,
        text.toList.take tile.front.length = tile.front ∧
          lexemes text.toList = tile.before ++ tile.lexeme :: tile.behind ∧
          lexemes (text.toList.drop tile.front.length) = tile.lexeme :: tile.behind ∧
          (∀ token ∈ token? tile.position tile.lexeme, token.position = .behind tile.front) ∧
          ∀ error ∈ error? tile.position tile.lexeme, error.position = .behind tile.front) ∧
      (lex text).tokens
        = ((Tile.all text).filterMap fun tile => token? tile.position tile.lexeme)
          ++ [.endOfInput (.behind text.toList)] ∧
      (∀ token ∈ (lex text).tokens.dropLast, token.kind ≠ .eof) ∧
      ((lex text).tokens.map Token.position).Pairwise Position.Before ∧
      (lex text).report.errors
        = ((Tile.all text).filterMap fun tile => error? tile.position tile.lexeme) ∧
      ((lex text).report.errors.map SyntaxError.position).Pairwise Position.Before ∧
      ∀ error ∈ (lex text).report.errors, ∃ first, (lex text).report.first? = some first ∧
        (error = first ∨ first.position.Before error.position) := by
  have lexemes_eq : (Tile.all text).map Tile.lexeme = lexemes text.toList :=
    Tile.map_lexeme_ofLexemes [] _
  have cover : ((Tile.all text).flatMap fun tile => tile.lexeme.chars) = text.toList := by
    rw [← flatMap_chars_lexemes text.toList, ← lexemes_eq, List.flatMap_map]
  have placed : ∀ tile ∈ Tile.all text,
      text.toList.take tile.front.length = tile.front ∧
        lexemes text.toList = tile.before ++ tile.lexeme :: tile.behind ∧
        lexemes (text.toList.drop tile.front.length) = tile.lexeme :: tile.behind ∧
        (∀ token ∈ token? tile.position tile.lexeme, token.position = .behind tile.front) ∧
        ∀ error ∈ error? tile.position tile.lexeme, error.position = .behind tile.front := by
    intro tile mem
    have split : lexemes text.toList = tile.before ++ tile.lexeme :: tile.behind :=
      (Tile.eq_of_mem_ofLexemes mem).symm
    have whole := flatMap_chars_lexemes text.toList
    rw [split, List.flatMap_append] at whole
    refine ⟨?_, split, Tile.lexemes_drop mem, fun _ => position_token, fun _ => position_error⟩
    rw [← whole]
    exact List.take_left
  have tokens : (lex text).tokens
      = ((Tile.all text).filterMap fun tile => token? tile.position tile.lexeme)
        ++ [.endOfInput (.behind text.toList)] := by
    rw [lex_tokens_eq, Tile.filterMap_placedFrom, Position.after_start]
  have errors : (lex text).report.errors
      = ((Tile.all text).filterMap fun tile => error? tile.position tile.lexeme) := by
    rw [lex_errors_eq, Tile.filterMap_placedFrom]
  have single : ∀ token ∈ (lex text).tokens.dropLast, token.kind ≠ .eof := by
    obtain ⟨front, last, split, -, only⟩ := lex_tokens_ends text
    rwa [split, List.dropLast_concat]
  exact ⟨cover, placed, tokens, single, positions_lex text, errors, positions_errors text,
    Report.first?_of_pairwise (positions_errors text)⟩

/-- The last tile of a name, a stray character, a line end and a string without its end. -/
def unclosed : Tile :=
  ⟨[⟨.token .identifier, 'x', []⟩, ⟨.stray, '@', []⟩, ⟨.token .newline, '\n', []⟩],
    ⟨.openString, '\'', ['y']⟩, []⟩

/-- Read from its quote on the text has that tile only, and the error is at the quote; the
error that is met first is at the stray character. -/
theorem lex_tiles_of_unclosed :
    unclosed ∈ Tile.all "x@\n'y" ∧ lexemes ['\'', 'y'] = [unclosed.lexeme] ∧
      (∀ error ∈ error? unclosed.position unclosed.lexeme, error.position = ⟨2, 1⟩) ∧
      ∃ first, (lex "x@\n'y").report.first? = some first ∧
        first.position.Before ⟨2, 1⟩ := by
  have mem : unclosed ∈ Tile.all "x@\n'y" := List.mem_of_getLast? (by cbv)
  have error : ⟨.unterminatedString, ⟨2, 1⟩, some "'y"⟩ ∈ (lex "x@\n'y").report.errors :=
    List.mem_of_getLast? (by cbv)
  have stray : (lex "x@\n'y").report.first?
      = some ⟨.unexpectedCharacter "@", ⟨1, 2⟩, some "@"⟩ := by cbv
  obtain ⟨-, tiles, -, -, -, -, -, firsts⟩ := lex_tiles "x@\n'y"
  obtain ⟨-, -, again, -, place⟩ := tiles unclosed mem
  obtain ⟨first, met, same | before⟩ := firsts _ error
  · rw [stray, ← same] at met
    cases met
  · exact ⟨mem, again, place, first, met, before⟩

end RubyReader
