/-
# `Cursor` — a place among the tokens of an input

A cursor is the list of tokens, cut at the current one.  The last token
always ends the input, so moving forward stops there and every look at a
token finds one.
-/
import RubyReader.Token.Basic

namespace RubyReader

/-- The tokens before the current one, in reverse, the current one, and
those behind it; the last of all is an end of input. -/
structure Cursor where
  before : List Token
  current : Token
  after : List Token
  ends : ((current :: after).getLast (List.cons_ne_nil _ _)).kind = .eof
deriving DecidableEq

namespace Cursor

/-- What follows `last` so that the input ends: `rest`, and an end of input
at the place of its last token unless that is one already. -/
def completed (last : Token) : List Token → List Token
  | [] => if last.isEof then [] else [.endOfInput last.position]
  | token :: rest => token :: completed token rest

theorem ends_completed (token : Token) (rest : List Token) :
    ((token :: completed token rest).getLast (List.cons_ne_nil _ _)).kind = .eof := by
  induction rest generalizing token with
  | nil =>
    unfold completed
    split
    · rename_i h
      simpa [Token.isEof] using h
    · simp
  | cons next rest ih => simpa [completed] using ih next

/-- A cursor on the first of the tokens; a list that does not end the input
is completed. -/
def ofTokens : List Token → Cursor
  | [] => ⟨[], .endOfInput .start, [], rfl⟩
  | token :: rest => ⟨[], token, completed token rest, ends_completed token rest⟩

def tokens (cursor : Cursor) : List Token := cursor.before.reverse ++ cursor.current :: cursor.after

/-- The number of tokens before the current one. -/
def index (cursor : Cursor) : Nat := cursor.before.length

/-- The number of tokens behind the current one. -/
def remaining (cursor : Cursor) : Nat := cursor.after.length

/-- The token behind the current one; the last token is followed by itself. -/
def next (cursor : Cursor) : Token := cursor.after.head?.getD cursor.current

def previous? (cursor : Cursor) : Option Token := cursor.before.head?

/-- Moves to the next token, if there is one. -/
def advance (cursor : Cursor) : Cursor :=
  match h : cursor.after with
  | [] => cursor
  | token :: rest =>
    ⟨cursor.current :: cursor.before, token, rest, by
      have ends := cursor.ends
      simp only [h, List.getLast_cons_cons] at ends
      exact ends⟩

def forward : Nat → Cursor → Cursor
  | 0, cursor => cursor
  | count + 1, cursor => forward count cursor.advance

def skipLines (cursor : Cursor) : Cursor :=
  cursor.forward ((cursor.current :: cursor.after).takeWhile fun t => t.kind = .newline).length

end Cursor
end RubyReader
