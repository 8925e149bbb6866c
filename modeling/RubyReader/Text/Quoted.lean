/-
# `Quoted` — two ways to write a text between double quotes

    value form     \" \\ \n \t \r \f \v \b \a \e, `#` escaped where it would
                   open an interpolation, other controls as \uXXXX
    listing form   \" \\ \n \t \r \0, characters that combine or do not
                   show as \u with braces

The value form is what a string reads as in the language; the listing
form is what structure listings and messages show.
-/
import RubyReader.Text.Classes
import RubyReader.Text.Combining
import RubyReader.Text.Printable

namespace RubyReader.Text

/-- Escapes that both forms share. -/
def sharedEscape? : Char → Option Char
  | '"' => some '"'
  | '\\' => some '\\'
  | '\n' => some 'n'
  | '\t' => some 't'
  | '\r' => some 'r'
  | _ => none

/-! ## The value form -/

/-- The letter behind the backslash in the value form. -/
def valueEscape? (c : Char) : Option Char :=
  match sharedEscape? c with
  | some letter => some letter
  | none =>
    if c = '\x0c' then some 'f'
    else if c = '\x0b' then some 'v'
    else if c = '\x08' then some 'b'
    else if c = '\x07' then some 'a'
    else if c = '\x1b' then some 'e'
    else none

/-- What makes a preceding `#` an interpolation: a brace, `$` or `@`. -/
def opensInterpolation (c : Char) : Bool := c = '\x7b' || c = '$' || c = '@'

def hexDigit (n : Nat) : Char :=
  if n < 10 then Char.ofNat (48 + n) else Char.ofNat (55 + n)

def hex4 (n : Nat) : List Char :=
  [hexDigit (n / 4096 % 16), hexDigit (n / 256 % 16), hexDigit (n / 16 % 16), hexDigit (n % 16)]

/-- A character in the value form, in front of the rest of its text. -/
def valueChar (c : Char) (rest : List Char) : List Char :=
  match valueEscape? c with
  | some letter => ['\\', letter]
  | none =>
    if c = '#' && rest.head?.any opensInterpolation then ['\\', '#']
    else if isControl c then '\\' :: 'u' :: hex4 c.toNat
    else [c]

/-- The inside of the value form. -/
def valueBody : List Char → List Char
  | [] => []
  | c :: cs => valueChar c cs ++ valueBody cs

/-- A text in the value form. -/
def quoteValue (text : String) : String :=
  String.ofList ('"' :: valueBody text.toList ++ ['"'])

/-! ## The listing form -/

/-- A character in the listing form. -/
def listingChar (c : Char) : List Char :=
  match sharedEscape? c with
  | some letter => ['\\', letter]
  | none =>
    if c = '\x00' then ['\\', '0']
    else if isCombining c || !isPrintable c then
      ['\\', 'u', '\x7b'] ++ Nat.toDigits 16 c.toNat ++ ['\x7d']
    else [c]

def quoteListing (text : String) : String :=
  String.ofList ('"' :: text.toList.flatMap listingChar ++ ['"'])

end RubyReader.Text
