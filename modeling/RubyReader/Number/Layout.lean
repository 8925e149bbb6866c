/-
# `Layout` — how floating point numbers are written

A finite number is written with its shortest digits: positionally if the
exponent of its leading digit is from -4 to 15, otherwise with an exponent.
Two layouts differ in the details of the exponent form and in the names of
what is not finite.

    value layout      1.5   1.0e+16   1.5e-07   Infinity   NaN
    listing layout    1.5   1e16      1.5e-7    inf        NaN
-/
import RubyReader.Number.Shortest

namespace RubyReader

/-- The decisions of a layout. -/
structure FloatLayout where
  /-- the digits of an exponent form always have a point -/
  pointAlways : Bool
  /-- a positive exponent has a sign -/
  plusSign : Bool
  /-- the least number of digits of an exponent -/
  exponentDigits : Nat
  infinity : String
  notANumber : String

namespace FloatLayout

/-- How values are written. -/
def value : FloatLayout := ⟨true, true, 2, "Infinity", "NaN"⟩

/-- How structure listings write numbers. -/
def listing : FloatLayout := ⟨false, false, 1, "inf", "NaN"⟩

def zeros (count : Nat) : List Digit := List.replicate count .zero

/-- Digits around a point, with at least one digit on each side. -/
def pointed (whole part : List Digit) : List Char :=
  Decimal.text (if whole.isEmpty then [.zero] else whole) ++ '.' ::
    Decimal.text (if part.isEmpty then [.zero] else part)

/-- Positional form: the point stands behind the digit of weight one. -/
def positional (s : Scientific) : List Char :=
  if s.exponent < 0 then pointed [] (zeros (s.exponent.natAbs - 1) ++ s.digits)
  else
    let point := s.exponent.toNat + 1
    pointed (s.digits.take point ++ zeros (point - s.digits.length)) (s.digits.drop point)

/-- The digits of an exponent, padded with zeros on the left. -/
def exponentText (layout : FloatLayout) (exponent : Int) : List Char :=
  let digits := Decimal.digits exponent.natAbs
  (if exponent < 0 then ['-'] else if layout.plusSign then ['+'] else [])
    ++ Decimal.text (zeros (layout.exponentDigits - digits.length) ++ digits)

/-- Exponent form. -/
def scientific (layout : FloatLayout) (s : Scientific) : List Char :=
  (if s.rest.isEmpty && !layout.pointAlways then [s.lead.char] else pointed [s.lead] s.rest)
    ++ 'e' :: layout.exponentText s.exponent

/-- A decimal in the form that its exponent asks for. -/
def decimal (layout : FloatLayout) (s : Scientific) : List Char :=
  if s.exponent < -4 || 15 < s.exponent then layout.scientific s else positional s

/-- A number in a layout; the sign bit shows, also that of a zero. -/
def write (layout : FloatLayout) (x : Binary64) : String :=
  if x.isNaN then layout.notANumber
  else
    (if x.negative then "-" else "") ++
      (if x.isInfinite then layout.infinity else String.ofList (layout.decimal x.shortest))

end FloatLayout
end RubyReader
