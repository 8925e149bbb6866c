/-
# `Decimal` — decimal digits

Digits are written and read most significant first.
-/
namespace RubyReader

/-- A decimal digit. -/
abbrev Digit := Fin 10

namespace Digit

def zero : Digit := 0

def char (digit : Digit) : Char := Char.ofNat (48 + digit.val)

/-- The digit of a character, if it is one. -/
def ofChar? (c : Char) : Option Digit :=
  if c.isDigit then some (Fin.ofNat 10 (c.toNat - 48)) else none

end Digit

namespace Decimal

/-- The digits of a number, least significant first; zero has one digit. -/
def reversedDigits (n : Nat) : List Digit :=
  if n < 10 then [Fin.ofNat 10 n] else Fin.ofNat 10 n :: reversedDigits (n / 10)

def digits (n : Nat) : List Digit := (reversedDigits n).reverse

/-- The number with given digits. -/
def value (digits : List Digit) : Nat := digits.foldl (fun n d => 10 * n + d.val) 0

def text (digits : List Digit) : List Char := digits.map Digit.char

/-- The digits of a text that holds nothing else. -/
def digits? (chars : List Char) : Option (List Digit) := chars.mapM Digit.ofChar?

/-- The number that a nonempty text of digits writes. -/
def value? : List Char → Option Nat
  | [] => none
  | chars => (digits? chars).map value

end Decimal

/-- A decimal in scientific form: `lead . rest · 10^exponent`. -/
structure Scientific where
  lead : Digit
  rest : List Digit
  exponent : Int
deriving DecidableEq

namespace Scientific

def digits (s : Scientific) : List Digit := s.lead :: s.rest

/-- The decimal `n · 10^exponent`, without the zeros at its end. -/
def ofNat (n : Nat) (exponent : Int) : Scientific :=
  let reversed := Decimal.reversedDigits n
  match (reversed.dropWhile fun d => d = .zero).reverse with
  | [] => ⟨.zero, [], 0⟩
  | lead :: rest => ⟨lead, rest, exponent + (reversed.length - 1 : Nat)⟩

end Scientific
end RubyReader
