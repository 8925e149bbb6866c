/-
# `Nearest` — which rationals a number is nearest to

The rationals that round to a finite `m · 2^q` reach from halfway to the number below to
halfway to the number above (`Binary64.Holds`).  The binary logarithm of a quotient is
exact (`log2Quotient_eq`), so such a quotient is rounded at the scale `q` and gives `m`,
or just below a power of two at the scale `q - 1`, where it gives `2m`; the magnitude is
the same (`nearestBits_eq`).  Sign, magnitude and the two fields make up the bits of a
number.
-/
import RubyReader.Number.Reading
import Mathlib.Algebra.Order.Field.Power
import Mathlib.Algebra.Order.Floor.Semifield
import Mathlib.Data.Int.Log
import Mathlib.Data.Rat.Floor
import Mathlib.Tactic.FieldSimp
import Mathlib.Tactic.Linarith
import Mathlib.Tactic.NormNum
import Mathlib.Tactic.Positivity
import Mathlib.Tactic.Ring

namespace RubyReader

/-! ## Powers with an integer exponent

Scales are integers, and what is computed are natural numbers: a power below one becomes a
denominator, and comparisons are multiplied out. -/

theorem zpow_eq_div {base : ℚ} (pos : 0 < base) (e : Int) :
    base ^ e = base ^ e.toNat / base ^ (-e).toNat := by
  rw [eq_div_iff (by positivity), ← zpow_natCast base e.toNat, ← zpow_natCast base (-e).toNat,
    ← zpow_add₀ pos.ne']
  congr 1
  omega

theorem two_zpow_add (e : Int) (n : Nat) : (2 : ℚ) ^ (e + n) = 2 ^ n * 2 ^ e := by
  rw [zpow_add₀ two_ne_zero, zpow_natCast, mul_comm]

theorem two_zpow_eq (e : Int) : (2 : ℚ) ^ e = 2 * 2 ^ (e - 1) := by
  rw [← zpow_one_add₀ two_ne_zero, add_sub_cancel]

theorem mul_two_pow_le_iff {num den : Nat} (pos : 0 < den) (e : Int) :
    den * 2 ^ e.toNat ≤ num * 2 ^ (-e).toNat ↔ (2 : ℚ) ^ e ≤ num / den := by
  have pos' : (0 : ℚ) < den := by exact_mod_cast pos
  rw [zpow_eq_div (by norm_num), div_le_div_iff₀ (by positivity) pos', mul_comm den]
  exact_mod_cast Iff.rfl

/-- The powers of a base on both sides of a number determine its logarithm. -/
theorem log_eq_of_bounds {base : Nat} (one_lt : 1 < base) {r : ℚ} (pos : 0 < r) {e : Int}
    (low : (base : ℚ) ^ e ≤ r) (high : r < (base : ℚ) ^ (e + 1)) : Int.log base r = e := by
  have le := (Int.zpow_le_iff_le_log one_lt pos).mp low
  have lt := (Int.lt_zpow_iff_log_lt one_lt pos).mp high
  omega

/-- The binary logarithms of numerator and denominator leave two places for the one of
their quotient. -/
theorem quotient_bounds {num den : Nat} (pos : 0 < num) (pos' : 0 < den) :
    (2 : ℚ) ^ ((num.log2 : Int) - den.log2 - 1) ≤ num / den ∧
      (num : ℚ) / den < 2 ^ ((num.log2 : Int) - den.log2 + 1) := by
  have low : (2 : ℚ) ^ num.log2 ≤ num := by exact_mod_cast Nat.log2_self_le pos.ne'
  have high : (num : ℚ) < 2 ^ (num.log2 + 1) := by exact_mod_cast Nat.lt_log2_self
  have low' : (2 : ℚ) ^ den.log2 ≤ den := by exact_mod_cast Nat.log2_self_le pos'.ne'
  have high' : (den : ℚ) < 2 ^ (den.log2 + 1) := by exact_mod_cast Nat.lt_log2_self
  have den_pos : (0 : ℚ) < den := by exact_mod_cast pos'
  constructor
  · rw [sub_sub, zpow_sub₀ two_ne_zero, zpow_natCast,
      show (den.log2 : Int) + 1 = ((den.log2 + 1 : Nat) : Int) by push_cast; rfl, zpow_natCast]
    exact div_le_div₀ (by positivity) low den_pos high'.le
  · rw [show (num.log2 : Int) - den.log2 + 1 = ((num.log2 + 1 : Nat) : Int) - den.log2 by
      push_cast; ring, zpow_sub₀ two_ne_zero, zpow_natCast, zpow_natCast]
    exact div_lt_div₀ high low' (by positivity) (by positivity)

/-- The binary logarithm of a quotient is computed exactly. -/
theorem log2Quotient_eq {num den : Nat} (pos : 0 < num) (pos' : 0 < den) :
    log2Quotient num den = Int.log 2 ((num : ℚ) / den) := by
  have quotient : (0 : ℚ) < (num : ℚ) / den := by positivity
  obtain ⟨low, high⟩ := quotient_bounds pos pos'
  simp only [log2Quotient, Nat.pow_eq]
  split
  · rename_i reached
    exact (log_eq_of_bounds (by decide) quotient
      (by exact_mod_cast (mul_two_pow_le_iff pos' _).mp reached) (by exact_mod_cast high)).symm
  · rename_i missed
    rw [mul_two_pow_le_iff pos', not_le] at missed
    refine (log_eq_of_bounds (by decide) quotient (by exact_mod_cast low) ?_).symm
    rw [sub_add_cancel]
    exact_mod_cast missed

/-! ## Fields -/

namespace Binary64

variable (x : Binary64)

/-- Sign and magnitude make up the bits. -/
theorem ofMagnitude_eq : ofMagnitude x.negative x.magnitude = x := by
  have bound := x.bits.toNat_lt
  simp only [ofMagnitude, negative, magnitude, Nat.pow_eq, Nat.reducePow, decide_eq_true_eq]
    at bound ⊢
  have whole : (if 9223372036854775808 ≤ x.bits.toNat then 9223372036854775808 else 0)
      + x.bits.toNat % 9223372036854775808 = x.bits.toNat := by
    split <;> omega
  rw [whole, UInt64.ofNat_toNat]

theorem exponentField_eq : x.exponentField = x.bits.toNat % 2 ^ 63 / 2 ^ 52 := rfl

theorem fraction_eq : x.fraction = x.bits.toNat % 2 ^ 52 := rfl

theorem significand_eq :
    x.significand = if x.exponentField = 0 then x.fraction else 2 ^ 52 + x.fraction := rfl

theorem magnitude_eq : x.magnitude = (x.scale + 1074).toNat * 2 ^ 52 + x.significand := by
  have magnitude : x.magnitude = x.bits.toNat % 2 ^ 63 := rfl
  have field := x.exponentField_eq
  have fraction := x.fraction_eq
  rw [scale, significand_eq]
  split <;> omega

theorem magnitude_of_isInfinite (infinite : x.isInfinite = true) : x.magnitude = infinityBits :=
  of_decide_eq_true infinite

/-- What is neither infinite nor no number is finite. -/
theorem magnitude_lt (notNaN : x.isNaN = false) (finite : x.isInfinite = false) :
    x.magnitude < infinityBits := by
  have le : x.magnitude ≤ infinityBits := Nat.not_lt.mp (of_decide_eq_false notNaN)
  exact Nat.lt_of_le_of_ne le (of_decide_eq_false finite)

theorem significand_lt : x.significand < 2 ^ 53 := by
  have fraction := x.fraction_eq
  rw [significand_eq]
  split <;> omega

theorem scale_ge : -1074 ≤ x.scale := by
  rw [scale]
  split <;> omega

theorem scale_le (finite : x.magnitude < infinityBits) : x.scale ≤ 971 := by
  have bound : x.bits.toNat % 2 ^ 63 < 2047 * 2 ^ 52 := finite
  have field := x.exponentField_eq
  rw [scale]
  split <;> omega

theorem normal : 2 ^ 52 ≤ x.significand ∨ x.scale = -1074 := by
  rw [scale, significand_eq]
  split <;> omega

/-- A power of two has a narrow side below it, unless it is the least. -/
theorem narrowBelow_iff : x.narrowBelow = true ↔ x.significand = 2 ^ 52 ∧ -1074 < x.scale := by
  have fraction := x.fraction_eq
  rw [narrowBelow, scale, significand_eq, Bool.and_eq_true, decide_eq_true_eq, decide_eq_true_eq]
  split <;> omega

/-! ## Rounding intervals -/

/-- Halfway to the number below. -/
def lowEnd : ℚ := (x.significand - if x.narrowBelow then 1 / 4 else 1 / 2) * 2 ^ x.scale

/-- Halfway to the number above. -/
def highEnd : ℚ := (x.significand + 1 / 2) * 2 ^ x.scale

/-- A rational lies in the rounding interval of a number, whose ends belong to it if the
significand is even. -/
structure Holds (r : ℚ) : Prop where
  low : x.lowEnd ≤ r
  high : r ≤ x.highEnd
  inside : x.significand % 2 = 0 ∨ x.lowEnd < r ∧ r < x.highEnd

theorem Holds.of_lt {x : Binary64} {r : ℚ} (below : x.lowEnd < r) (above : r < x.highEnd) :
    x.Holds r :=
  ⟨below.le, above.le, .inr ⟨below, above⟩⟩

theorem half_below_le : (x.significand - 1 / 2) * 2 ^ x.scale ≤ x.lowEnd := by
  rw [lowEnd]
  gcongr
  split <;> norm_num

/-- A number lies in its own interval. -/
theorem holds_self : x.Holds (x.significand * 2 ^ x.scale) := by
  have below : x.lowEnd < x.significand * 2 ^ x.scale := by
    rw [lowEnd]
    gcongr
    split <;> norm_num
  have above : x.significand * 2 ^ x.scale < x.highEnd := by
    rw [highEnd]
    gcongr
    norm_num
  exact .of_lt below above

section

variable {x} {r : ℚ} (h : x.Holds r)

include h

theorem Holds.lt : r < 2 ^ 53 * 2 ^ x.scale := by
  have fits : (x.significand : ℚ) + 1 ≤ 2 ^ 53 := by exact_mod_cast x.significand_lt
  refine lt_of_le_of_lt h.high ?_
  rw [highEnd]
  gcongr
  linarith

/-- Only a power of two reaches below the numbers of its scale, as far as there the numbers
of half the scale do. -/
theorem Holds.below_scale (less : r < 2 ^ 52 * 2 ^ x.scale) (normal : -1074 < x.scale) :
    x.significand = 2 ^ 52 ∧ x.lowEnd = ((2 ^ 53 : Nat) - 1 / 2) * 2 ^ (x.scale - 1) := by
  have power : x.significand = 2 ^ 52 := by
    have least : 2 ^ 52 ≤ x.significand := x.normal.resolve_right (by omega)
    have := lt_of_mul_lt_mul_right (x.half_below_le.trans_lt (h.low.trans_lt less))
      (by positivity)
    have greatest : (x.significand : ℚ) < 2 ^ 52 + 1 := by linarith
    have : x.significand < 2 ^ 52 + 1 := by exact_mod_cast greatest
    omega
  refine ⟨power, ?_⟩
  rw [lowEnd, x.narrowBelow_iff.mpr ⟨power, normal⟩, power, two_zpow_eq x.scale]
  norm_num
  ring

end

end Binary64

/-! ## Rounding -/

/-- A quotient is rounded to an integer that is at most half away, to an even one if it is
just half away. -/
theorem divNearest_eq {num den n : Nat} (pos : 0 < den) (low : (n - 1 / 2 : ℚ) ≤ num / den)
    (high : (num : ℚ) / den ≤ n + 1 / 2)
    (inside : n % 2 = 0 ∨ (n - 1 / 2 : ℚ) < num / den ∧ (num : ℚ) / den < n + 1 / 2) :
    divNearest num den = n := by
  have pos' : (0 : ℚ) < den := by exact_mod_cast pos
  rw [le_div_iff₀ pos'] at low
  rw [div_le_iff₀ pos'] at high
  rw [lt_div_iff₀ pos', div_lt_iff₀ pos'] at inside
  -- the same in natural numbers
  have low' : 2 * (den * n) ≤ 2 * num + den := by
    have : (2 * (den * n) : ℚ) ≤ 2 * num + den := by linarith
    exact_mod_cast this
  have high' : 2 * num ≤ 2 * (den * n) + den := by
    have : (2 * num : ℚ) ≤ 2 * (den * n) + den := by linarith
    exact_mod_cast this
  have inside' : n % 2 = 0 ∨ 2 * (den * n) ≠ 2 * num + den ∧ 2 * num ≠ 2 * (den * n) + den := by
    refine inside.imp_right fun ⟨above, below⟩ => ⟨fun e => ?_, fun e => ?_⟩
    · have : (2 * (den * n) : ℚ) = 2 * num + den := by exact_mod_cast e
      linarith
    · have : (2 * num : ℚ) = 2 * (den * n) + den := by exact_mod_cast e
      linarith
  have parts := Nat.div_add_mod num den
  have rest := Nat.mod_lt num pos
  have reached : num / den ≤ n := by
    by_contra below
    have := Nat.mul_le_mul_left den (Nat.succ_le_of_lt (Nat.not_le.mp below))
    rw [Nat.mul_succ] at this
    omega
  have close : n ≤ num / den + 1 := by
    by_contra above
    have := Nat.mul_le_mul_left den (Nat.succ_le_of_lt (Nat.not_le.mp above))
    rw [Nat.mul_succ, Nat.mul_succ] at this
    omega
  unfold divNearest
  dsimp only
  rcases Nat.le_or_eq_of_le_succ close with le | up
  · have same : num / den = n := Nat.le_antisymm reached le
    rw [same] at parts ⊢
    split
    · rfl
    · rw [if_neg (by omega)]
      omega
  · rw [up, Nat.mul_succ] at low' high' inside'
    rw [up, if_neg (by omega)]
    split
    · rfl
    · omega

/-- At the scale where a quotient is rounded its significand is the nearest integer. -/
theorem nearestBits_of_scale {num den significand : Nat} {scale : Int} (pos : 0 < num)
    (pos' : 0 < den) (exponent : max (-1074) (Int.log 2 ((num : ℚ) / den) - 52) = scale)
    (low : (significand - 1 / 2 : ℚ) * 2 ^ scale ≤ num / den)
    (high : (num : ℚ) / den ≤ (significand + 1 / 2) * 2 ^ scale)
    (inside : significand % 2 = 0 ∨ (significand - 1 / 2 : ℚ) * 2 ^ scale < num / den ∧
      (num : ℚ) / den < (significand + 1 / 2) * 2 ^ scale) :
    nearestBits num den
      = min Binary64.infinityBits ((scale + 1074).toNat * 2 ^ 52 + significand) := by
  have unit : (0 : ℚ) < 2 ^ scale := by positivity
  have quotient : ((num * 2 ^ (-scale).toNat : Nat) : ℚ) / (den * 2 ^ scale.toNat : Nat)
      = num / den / 2 ^ scale := by
    rw [zpow_eq_div (by norm_num) scale]
    push_cast
    field_simp
  rw [← le_div_iff₀ unit] at low
  rw [← div_le_iff₀ unit] at high
  rw [← lt_div_iff₀ unit, ← div_lt_iff₀ unit] at inside
  simp only [nearestBits, Nat.pow_eq]
  rw [log2Quotient_eq pos pos', exponent, divNearest_eq (n := significand) (by positivity)]
  · rwa [quotient]
  · rwa [quotient]
  · rwa [quotient]

/-- A quotient that rounds to a finite number gives its magnitude. -/
theorem nearestBits_eq {x : Binary64} {num den : Nat} (finite : x.magnitude < Binary64.infinityBits)
    (pos : 0 < num) (pos' : 0 < den) (holds : x.Holds ((num : ℚ) / den)) :
    nearestBits num den = x.magnitude := by
  have magnitude := x.magnitude_eq
  have infinity : Binary64.infinityBits = 2047 * 2 ^ 52 := rfl
  have quotient : (0 : ℚ) < (num : ℚ) / den := by positivity
  have log_lt {n : Nat} (less : (num : ℚ) / den < 2 ^ n * 2 ^ x.scale) :
      Int.log 2 ((num : ℚ) / den) < x.scale + n := by
    refine (Int.lt_zpow_iff_log_lt (by decide) quotient).mp ?_
    exact_mod_cast (two_zpow_add x.scale n).symm ▸ less
  have le_log {n : Nat} (le : (2 : ℚ) ^ n * 2 ^ x.scale ≤ num / den) :
      x.scale + n ≤ Int.log 2 ((num : ℚ) / den) := by
    refine (Int.zpow_le_iff_le_log (by decide) quotient).mp ?_
    exact_mod_cast (two_zpow_add x.scale n).symm ▸ le
  by_cases narrow : (num : ℚ) / den < 2 ^ 52 * 2 ^ x.scale ∧ -1074 < x.scale
  · -- just below a power of two, at the scale of the numbers there
    obtain ⟨less, normal⟩ := narrow
    obtain ⟨power, lowEnd⟩ := holds.below_scale less normal
    have double := two_zpow_eq x.scale
    have low := holds.low
    rw [lowEnd] at low
    have high : (num : ℚ) / den ≤ ((2 ^ 53 : Nat) + 1 / 2) * 2 ^ (x.scale - 1) := by
      refine less.le.trans ?_
      rw [double, ← mul_assoc]
      gcongr
      norm_num
    have above : (2 : ℚ) ^ 51 * 2 ^ x.scale ≤ num / den := by
      refine le_trans ?_ low
      rw [double, ← mul_assoc]
      gcongr
      norm_num
    have log := log_lt less
    have log' := le_log above
    rw [nearestBits_of_scale pos pos' (by omega) low high (.inl rfl)]
    omega
  · -- among the numbers of one scale
    have exponent : max (-1074) (Int.log 2 ((num : ℚ) / den) - 52) = x.scale := by
      have log := log_lt holds.lt
      rcases eq_or_lt_of_le x.scale_ge with least | normal
      · omega
      · have log' := le_log (not_lt.mp fun less => narrow ⟨less, normal⟩)
        omega
    have low := x.half_below_le.trans holds.low
    rw [nearestBits_of_scale pos pos' exponent low holds.high
      (holds.inside.imp_right fun inside => ⟨x.half_below_le.trans_lt inside.1, inside.2⟩)]
    omega

end RubyReader
