/-
# `Lines` — from byte offsets to positions

A text is cut behind every newline; each line keeps the offset of its
first byte.  An offset belongs to the last line that starts at or before
it, and its column counts the characters of that line in front of it:

    position (offset) = ⟨number of the line, 1 + characters before offset⟩

Offsets behind the last byte stand for the end of the text.
-/
import RubyReader.Source.Position

namespace RubyReader

/-- The bytes that a list of characters takes in UTF-8. -/
def byteLength : List Char → Nat
  | [] => 0
  | c :: rest => c.utf8Size + byteLength rest

/-- A line of a text, with the offset of its first byte. -/
structure Line where
  start : Nat
  chars : List Char
deriving DecidableEq

namespace Line

/-- The characters of a list that begin in its first `bytes` bytes. -/
def charsWithin : Nat → List Char → Nat
  | 0, _ => 0
  | _ + 1, [] => 0
  | bytes + 1, c :: cs => 1 + charsWithin (bytes + 1 - c.utf8Size) cs

/-- The column of an offset that is not before the line. -/
def column (line : Line) (offset : Nat) : Nat := 1 + charsWithin (offset - line.start) line.chars

end Line

/-- A text as lines: the first one, and those behind each newline. -/
structure Lines where
  first : Line
  rest : List Line
deriving DecidableEq

namespace Lines

/-- Cuts `chars` behind each newline; `start` is the offset of the current
line and `seen` holds its characters so far, in reverse. -/
def cut (start : Nat) (seen : List Char) : List Char → Lines
  | [] => ⟨⟨start, seen.reverse⟩, []⟩
  | c :: cs =>
    if c = '\n' then
      let line := (c :: seen).reverse
      let below := cut (start + byteLength line) [] cs
      ⟨⟨start, line⟩, below.first :: below.rest⟩
    else cut start (c :: seen) cs

def ofChars (chars : List Char) : Lines := cut 0 [] chars

/-- Goes down while the next line starts at or before the offset. -/
def locate (offset number : Nat) (line : Line) : List Line → Position
  | [] => ⟨number, line.column offset⟩
  | below :: rest =>
    if below.start ≤ offset then locate offset (number + 1) below rest
    else ⟨number, line.column offset⟩

def positionOf (lines : Lines) (offset : Nat) : Position :=
  locate offset 1 lines.first lines.rest

end Lines
end RubyReader
