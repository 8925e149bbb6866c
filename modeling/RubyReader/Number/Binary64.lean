/-
# `Binary64` — floating point numbers as their bits

    1 bit of sign | 11 bits of exponent e | 52 bits of fraction f

    e = 0           f · 2^(-1074)
    0 < e < 2047    (2^52 + f) · 2^(e - 1075)
    e = 2047        infinity if f = 0, else no number
-/
namespace RubyReader

/-- A number in the 64-bit binary format. -/
structure Binary64 where
  bits : UInt64
deriving DecidableEq

namespace Binary64

def negative (x : Binary64) : Bool := Nat.pow 2 63 ≤ x.bits.toNat

/-- The bits without the sign, which order the magnitudes. -/
def magnitude (x : Binary64) : Nat := x.bits.toNat % Nat.pow 2 63

def exponentField (x : Binary64) : Nat := x.magnitude / Nat.pow 2 52

def fraction (x : Binary64) : Nat := x.bits.toNat % Nat.pow 2 52

/-- The magnitude of the infinities. -/
def infinityBits : Nat := 2047 * Nat.pow 2 52

/-- A bit pattern from its sign and its magnitude. -/
def ofMagnitude (negative : Bool) (magnitude : Nat) : Binary64 :=
  ⟨UInt64.ofNat ((if negative then Nat.pow 2 63 else 0) + magnitude)⟩

/-- Bit patterns that stand for no number. -/
def isNaN (x : Binary64) : Bool := infinityBits < x.magnitude

def isInfinite (x : Binary64) : Bool := x.magnitude = infinityBits

def isZero (x : Binary64) : Bool := x.magnitude = 0

/-- The integer `m` of a finite number `m · 2^q`. -/
def significand (x : Binary64) : Nat :=
  if x.exponentField = 0 then x.fraction else Nat.pow 2 52 + x.fraction

/-- The exponent `q` of a finite number `m · 2^q`. -/
def scale (x : Binary64) : Int :=
  if x.exponentField = 0 then -1074 else (x.exponentField : Int) - 1075

/-- Whether the number below in magnitude is only half as far as the one above. -/
def narrowBelow (x : Binary64) : Bool := x.fraction = 0 && 1 < x.exponentField

/-- Equality of numbers: what is no number differs from all, and the zeros are equal. -/
def sameNumber (x y : Binary64) : Bool :=
  !x.isNaN && !y.isNaN && (x.bits = y.bits || (x.isZero && y.isZero))

end Binary64
end RubyReader
