/-
# `Shortest` — the fewest digits that identify a number

The reals that round to a finite `m · 2^q` reach from halfway to the number
below to halfway to the number above, ends included exactly when `m` is
even.  In quarters of the last place, with `p = q - 2`:

    (4m - 2) · 2^p ≤ x ≤ (4m + 2) · 2^p       (4m - 1 below a power of two)

The search goes through the decimal grids from coarse to fine and looks at
the two grid points next to `m · 2^q`.  The first grid with a point in the
interval wins; of two points the closer one, and the upper one if they are
equally close.
-/
import RubyReader.Number.Binary64
import RubyReader.Number.Decimal

namespace RubyReader

/-- The reals that round to a number, as naturals in units of `10^unit`. -/
structure RoundingInterval where
  low : Nat
  center : Nat
  high : Nat
  /-- the ends belong to the interval -/
  closed : Bool
  unit : Int
deriving DecidableEq

namespace RoundingInterval

/-- The interval of a finite number: a power of two with a negative
exponent is a power of five in smaller units. -/
def of (x : Binary64) : RoundingInterval :=
  let m := x.significand
  let p := x.scale - 2
  let factor := if p < 0 then Nat.pow 5 p.natAbs else Nat.pow 2 p.natAbs
  { low := (4 * m - if x.narrowBelow then 1 else 2) * factor
    center := 4 * m * factor
    high := (4 * m + 2) * factor
    closed := m % 2 = 0
    unit := if p < 0 then p else 0 }

/-- Whether a number of units lies in the interval. -/
def holds (i : RoundingInterval) (n : Nat) : Bool :=
  if i.closed then i.low ≤ n && n ≤ i.high else i.low < n && n < i.high

/-- The point of the grid of `10^g` units that stands for the center. -/
def gridPoint? (i : RoundingInterval) (g : Nat) : Option Nat :=
  let step := Nat.pow 10 g
  let below := i.center / step
  let lower := below * step
  let upper := (below + 1) * step
  match i.holds lower, i.holds upper with
  | true, true => some (if upper - i.center ≤ i.center - lower then below + 1 else below)
  | true, false => some below
  | false, true => some (below + 1)
  | false, false => none

/-- The first hit from the grid of `10^g` units on to finer ones; the
finest grid holds the center itself. -/
def search (i : RoundingInterval) : Nat → Nat × Nat
  | 0 => ((i.gridPoint? 0).getD i.center, 0)
  | g + 1 =>
    match i.gridPoint? (g + 1) with
    | some point => (point, g + 1)
    | none => search i g

end RoundingInterval

namespace Binary64

/-- The shortest decimal that reads back as the magnitude of a finite number. -/
def shortest (x : Binary64) : Scientific :=
  if x.isZero then ⟨.zero, [], 0⟩
  else
    let i := RoundingInterval.of x
    let (point, g) := i.search ((Decimal.reversedDigits i.center).length - 1)
    .ofNat point (i.unit + g)

end Binary64
end RubyReader
