/-
# `Reading` — numbers from text

    integer   sign? digit+                                  within 64 signed bits
    float     sign? ( 'inf' | 'infinity' | 'nan' )          in any case
            | sign? digit* ( '.' digit* )? ( 'e' sign? digit+ )?   with a digit before 'e'

A float is rounded to the nearest number, of two equally near ones to the
one with an even last bit.
-/
import RubyReader.Number.Binary64
import RubyReader.Number.Decimal

namespace RubyReader

/-! ## Rounding -/

/-- A quotient rounded to the nearest integer, halves to the even one. -/
def divNearest (num den : Nat) : Nat :=
  let quotient := num / den
  let rest := 2 * (num % den)
  if rest < den then quotient
  else if den < rest then quotient + 1
  else quotient + quotient % 2

/-- The integer part of the binary logarithm of a positive quotient. -/
def log2Quotient (num den : Nat) : Int :=
  let estimate : Int := num.log2 - den.log2
  if den * Nat.pow 2 estimate.toNat ≤ num * Nat.pow 2 (-estimate).toNat then estimate
  else estimate - 1

/-- The magnitude of the number nearest to a positive quotient. -/
def nearestBits (num den : Nat) : Nat :=
  let scale : Int := max (-1074) (log2Quotient num den - 52)
  let significand := divNearest (num * Nat.pow 2 (-scale).toNat) (den * Nat.pow 2 scale.toNat)
  min Binary64.infinityBits ((scale + 1074).toNat * Nat.pow 2 52 + significand)

/-- The magnitude of the number nearest to `n · 10^exponent`.  A decimal of
10^311 or more is infinite and one below 10^(-329) is zero, whatever its
digits, so no power beyond those is computed. -/
def nearestDecimal (n : Nat) (exponent : Int) : Nat :=
  if n = 0 then 0
  else
    let leading := exponent + (Decimal.reversedDigits n).length
    if 311 < leading then Binary64.infinityBits
    else if leading < -329 then 0
    else nearestBits (n * Nat.pow 10 exponent.toNat) (Nat.pow 10 (-exponent).toNat)

/-! ## Grammar -/

/-- A sign in front of a text, and what follows it. -/
def splitSign : List Char → Bool × List Char
  | '-' :: rest => (true, rest)
  | '+' :: rest => (false, rest)
  | chars => (false, chars)

/-- An integer of 64 signed bits. -/
def readInteger? (text : String) : Option Int64 :=
  let (negative, digits) := splitSign text.toList
  match Decimal.value? digits with
  | none => none
  | some n =>
    let value : Int := if negative then -n else n
    if Int64.minValue.toInt ≤ value && value ≤ Int64.maxValue.toInt then some (Int64.ofInt value)
    else none

/-- The exponent at the end of a decimal; none is written for zero. -/
def readExponent? : List Char → Option Int
  | [] => some 0
  | c :: rest =>
    if c = 'e' || c = 'E' then
      let (negative, digits) := splitSign rest
      (Decimal.value? digits).map fun n => if negative then -n else n
    else none

/-- The magnitude of an unsigned decimal. -/
def readDecimal? (chars : List Char) : Option Nat :=
  let whole := chars.takeWhile Char.isDigit
  let (part, rest) :=
    match chars.dropWhile Char.isDigit with
    | '.' :: more => (more.takeWhile Char.isDigit, more.dropWhile Char.isDigit)
    | rest => ([], rest)
  match Decimal.value? (whole ++ part), readExponent? rest with
  | some n, some exponent => some (nearestDecimal n (exponent - part.length))
  | _, _ => none

/-- The magnitude of an unsigned float. -/
def readMagnitude? (chars : List Char) : Option Nat :=
  match String.ofList (chars.map Char.toLower) with
  | "inf" | "infinity" => some Binary64.infinityBits
  | "nan" => some (Binary64.infinityBits + Nat.pow 2 51)
  | _ => readDecimal? chars

/-- A floating point number. -/
def readFloat? (text : String) : Option Binary64 :=
  let (negative, rest) := splitSign text.toList
  (readMagnitude? rest).map (Binary64.ofMagnitude negative)

end RubyReader
