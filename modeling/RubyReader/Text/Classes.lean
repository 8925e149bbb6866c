/-
# `Classes` — blank and control characters

`isBlank` is the Unicode property White_Space, `isControl` the general
category Cc.
-/
import RubyReader.Text.Ranges

namespace RubyReader.Text

/-- The code points with the property White_Space. -/
def blankRanges : List (Nat × Nat) :=
  [(0x09, 0x0D), (0x20, 0x20), (0x85, 0x85), (0xA0, 0xA0), (0x1680, 0x1680), (0x2000, 0x200A),
   (0x2028, 0x2029), (0x202F, 0x202F), (0x205F, 0x205F), (0x3000, 0x3000)]

/-- White space, in any script. -/
def isBlank (c : Char) : Bool := inRanges c.toNat blankRanges

/-- The control characters of both the ASCII and the Latin-1 block. -/
def isControl (c : Char) : Bool := c.toNat < 0x20 || (0x7F ≤ c.toNat && c.toNat < 0xA0)

theorem isBlank_iff (c : Char) :
    isBlank c = true ↔ ∃ r ∈ blankRanges, r.1 ≤ c.toNat ∧ c.toNat ≤ r.2 :=
  inRanges_iff (by decide)

end RubyReader.Text
