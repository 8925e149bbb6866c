/-
# `Typed` — what is typed at a prompt

Lines end with a newline, which is dropped together with a carriage return
just in front of it.  What follows the last newline is a line if it is not
empty.  Bytes that are no text end the input: the lines before them count.
-/
namespace RubyReader

/-- The lines of an input, and whether something that is no text follows. -/
structure TypedLines where
  lines : List String
  broken : Bool
deriving DecidableEq

namespace TypedLines

/-- A line without the carriage return at its end; the characters come in reverse. -/
def finished : List Char → String
  | '\r' :: rest => String.ofList rest.reverse
  | chars => String.ofList chars.reverse

/-- The lines of a list of characters; `seen` holds those of the current line in reverse. -/
def split (seen : List Char) : List Char → List String
  | [] => if seen.isEmpty then [] else [String.ofList seen.reverse]
  | c :: cs => if c = '\n' then finished seen :: split [] cs else split (c :: seen) cs

def ofText (text : String) : TypedLines := ⟨split [] text.toList, false⟩

/-- The lines in front of the first line that is no text, each with its
newline; `seen` holds the bytes of the current line in reverse. -/
def textLines (seen : List UInt8) : List UInt8 → List String
  | [] => []
  | b :: bs =>
    if b = 10 then
      match String.fromUTF8? (ByteArray.mk (b :: seen).reverse.toArray) with
      | some line => line :: textLines [] bs
      | none => []
    else textLines (b :: seen) bs

/-- The lines of bytes: all of them if they are text, otherwise those in
front of the first line that is not. -/
def ofBytes (bytes : ByteArray) : TypedLines :=
  match String.fromUTF8? bytes with
  | some text => ofText text
  | none => ⟨split [] (String.join (textLines [] bytes.toList)).toList, true⟩

end TypedLines
end RubyReader
