/-
# `Shortest` — the shortest digits identify their number

The search for the shortest digits only takes points of the rounding interval, and finds
one at last, since the number itself is one (`holds_search`).  The interval is given in
units of a power of ten, in which a power of two with a negative exponent is a power of
five.  So the decimal that is found rounds to the number it stands for
(`holds_shortest`); the zeros that are left out at its end do not change it
(`value_ofNat`).
-/
import RubyReader.Number.Shortest
import RubyReader.Proofs.Number.Written
import Mathlib.Data.List.TakeWhile

namespace RubyReader

/-! ## Decimals in scientific form

Zeros at the end of the digits are counted in the exponent instead, which keeps the value. -/

namespace Decimal

theorem value_append (digits more : List Digit) :
    value (digits ++ more) = value digits * 10 ^ more.length + value more := by
  induction more using List.reverseRecOn with
  | nil => simp
  | append_singleton more digit ih =>
      rw [← List.append_assoc, value_append_digit, value_append_digit, ih, List.length_append,
        List.length_singleton, pow_succ]
      ring

theorem value_zeros (count : Nat) : value (List.replicate count .zero) = 0 := by
  rw [← List.append_nil (List.replicate count _), value_zeros_append, value_nil]

theorem value_append_zeros (digits : List Digit) (count : Nat) :
    value (digits ++ List.replicate count .zero) = value digits * 10 ^ count := by
  rw [value_append, value_zeros, List.length_replicate, add_zero]

end Decimal

namespace Scientific

def value (s : Scientific) : ℚ := Decimal.value s.digits * 10 ^ (s.exponent - s.rest.length)

/-- The digits of a decimal are those of its number without the zeros at its end. -/
theorem exists_ofNat {n : Nat} (nonzero : n ≠ 0) (exponent : Int) :
    ∃ lead rest count, Decimal.digits n = (lead :: rest) ++ List.replicate count .zero ∧
      ofNat n exponent = ⟨lead, rest, exponent + rest.length + count⟩ := by
  let isZero : Digit → Bool := fun d => d = .zero
  have zeros : (Decimal.reversedDigits n).takeWhile isZero
      = List.replicate ((Decimal.reversedDigits n).takeWhile isZero).length .zero :=
    List.eq_replicate_of_mem fun d mem =>
      of_decide_eq_true (List.mem_takeWhile_imp (p := isZero) mem)
  have parts : Decimal.digits n = ((Decimal.reversedDigits n).dropWhile isZero).reverse
      ++ List.replicate ((Decimal.reversedDigits n).takeWhile isZero).length .zero := by
    rw [← List.reverse_replicate, ← zeros, ← List.reverse_append, List.takeWhile_append_dropWhile]
    rfl
  cases front : ((Decimal.reversedDigits n).dropWhile isZero).reverse with
  | nil =>
      have value := Decimal.value_digits n
      rw [parts, front, Decimal.value_append_zeros, Decimal.value_nil, Nat.zero_mul] at value
      exact absurd value.symm nonzero
  | cons lead rest =>
      rw [front] at parts
      refine ⟨lead, rest, _, parts, ?_⟩
      have length := congrArg List.length parts
      rw [Decimal.digits, List.length_reverse, List.length_append, List.length_cons,
        List.length_replicate] at length
      simp only [ofNat]
      rw [front]
      dsimp only
      congr 1
      omega

theorem value_ofNat {n : Nat} (nonzero : n ≠ 0) (exponent : Int) :
    (ofNat n exponent).value = n * 10 ^ exponent := by
  obtain ⟨lead, rest, count, parts, e⟩ := exists_ofNat nonzero exponent
  have n_eq : n = Decimal.value (lead :: rest) * 10 ^ count := by
    rw [← Decimal.value_append_zeros, ← parts, Decimal.value_digits]
  have shift : exponent + rest.length + count - rest.length = exponent + count := by ring
  rw [e, value, digits, shift, zpow_add₀ (by norm_num), zpow_natCast, n_eq]
  push_cast
  ring

end Scientific

/-! ## The search

Whatever grid the search stops at, its point lies in the interval; the finest one has the
center, which is the number itself. -/

namespace RoundingInterval

variable {i : RoundingInterval}

theorem holds_of_gridPoint {g n : Nat} (h : i.gridPoint? g = some n) :
    i.holds (n * 10 ^ g) = true := by
  unfold gridPoint? at h
  dsimp only [Nat.pow_eq] at h
  split at h
  · rename_i lower upper
    obtain rfl := Option.some.inj h
    split
    · exact upper
    · exact lower
  · rename_i lower upper
    obtain rfl := Option.some.inj h
    exact lower
  · rename_i lower upper
    obtain rfl := Option.some.inj h
    exact upper
  · cases h

/-- What the search finds lies in the interval, if its center does. -/
theorem holds_search (center : i.holds i.center = true) (g : Nat) :
    i.holds ((i.search g).1 * 10 ^ (i.search g).2) = true := by
  induction g with
  | zero =>
      show i.holds ((i.gridPoint? 0).getD i.center * 10 ^ 0) = true
      cases found : i.gridPoint? 0 with
      | none => rwa [Option.getD_none, pow_zero, mul_one]
      | some n => exact holds_of_gridPoint found
  | succ g ih =>
      rw [search]
      split
      · rename_i n found
        exact holds_of_gridPoint found
      · exact ih

end RoundingInterval

namespace Binary64

variable (x : Binary64)

/-- A quarter of the last place of a number, in the units of its interval. -/
def quarter : Nat := if x.scale - 2 < 0 then 5 ^ (x.scale - 2).natAbs else 2 ^ (x.scale - 2).natAbs

theorem quarter_pos : 0 < x.quarter := by
  rw [quarter]
  split <;> positivity

/-- A power of two with a negative exponent is a power of five in smaller units. -/
theorem quarter_eq : (x.quarter : ℚ) * 10 ^ (RoundingInterval.of x).unit = 2 ^ x.scale / 4 := by
  have four : (2 : ℚ) ^ x.scale / 4 = 2 ^ (x.scale - 2) := by
    rw [zpow_sub₀ two_ne_zero]
    norm_num
  show _ * (10 : ℚ) ^ (if x.scale - 2 < 0 then x.scale - 2 else 0) = _
  rw [four, quarter]
  split
  · rename_i negative
    have exponent : x.scale - 2 = -((x.scale - 2).natAbs : Int) := by omega
    generalize (x.scale - 2).natAbs = e at exponent ⊢
    rw [exponent, zpow_neg, zpow_neg, zpow_natCast, zpow_natCast,
      show (10 : ℚ) = 5 * 2 by norm_num, mul_pow]
    push_cast
    field_simp
  · rename_i nonnegative
    have exponent : x.scale - 2 = ((x.scale - 2).natAbs : Int) := by omega
    generalize (x.scale - 2).natAbs = e at exponent ⊢
    rw [exponent, zpow_natCast, zpow_zero, mul_one]
    push_cast
    rfl

theorem low_eq : (RoundingInterval.of x).low
    = (4 * x.significand - if x.narrowBelow then 1 else 2) * x.quarter := rfl

theorem center_eq : (RoundingInterval.of x).center = 4 * x.significand * x.quarter := rfl

theorem high_eq : (RoundingInterval.of x).high = (4 * x.significand + 2) * x.quarter := rfl

theorem closed_eq : (RoundingInterval.of x).closed = decide (x.significand % 2 = 0) := rfl

variable {x} (nonzero : 0 < x.significand)

include nonzero

theorem holds_center : (RoundingInterval.of x).holds (RoundingInterval.of x).center = true := by
  have below : (RoundingInterval.of x).low < (RoundingInterval.of x).center := by
    rw [low_eq, center_eq]
    refine Nat.mul_lt_mul_of_pos_right ?_ x.quarter_pos
    split <;> omega
  have above : (RoundingInterval.of x).center < (RoundingInterval.of x).high := by
    rw [center_eq, high_eq]
    exact Nat.mul_lt_mul_of_pos_right (by omega) x.quarter_pos
  rw [RoundingInterval.holds]
  split <;> simp [below, above, below.le, above.le]

/-- What an interval holds in its units rounds to the number. -/
theorem holds_of_interval {n : Nat} (h : (RoundingInterval.of x).holds n = true) :
    x.Holds (n * 10 ^ (RoundingInterval.of x).unit) := by
  have unit : (0 : ℚ) < 10 ^ (RoundingInterval.of x).unit := by positivity
  have lowEnd : x.lowEnd = (RoundingInterval.of x).low * 10 ^ (RoundingInterval.of x).unit := by
    rw [Binary64.lowEnd, low_eq, Nat.cast_mul, mul_assoc, x.quarter_eq]
    split
    · rw [Nat.cast_sub (by omega)]
      push_cast
      ring
    · rw [Nat.cast_sub (by omega)]
      push_cast
      ring
  have highEnd : x.highEnd = (RoundingInterval.of x).high * 10 ^ (RoundingInterval.of x).unit := by
    rw [Binary64.highEnd, high_eq]
    push_cast
    rw [mul_assoc, x.quarter_eq]
    ring
  rw [RoundingInterval.holds] at h
  split at h
  · rename_i closed
    rw [Bool.and_eq_true, decide_eq_true_eq, decide_eq_true_eq] at h
    refine ⟨?_, ?_, .inl (by simpa [closed_eq] using closed)⟩
    · rw [lowEnd]
      gcongr
      exact h.1
    · rw [highEnd]
      gcongr
      exact h.2
  · rw [Bool.and_eq_true, decide_eq_true_eq, decide_eq_true_eq] at h
    have below : x.lowEnd < n * 10 ^ (RoundingInterval.of x).unit := by
      rw [lowEnd]
      gcongr
      exact h.1
    have above : n * 10 ^ (RoundingInterval.of x).unit < x.highEnd := by
      rw [highEnd]
      gcongr
      exact h.2
    exact .of_lt below above

omit nonzero

theorem isZero_iff : x.isZero = true ↔ x.significand = 0 := by
  have magnitude := x.magnitude_eq
  have normal := x.normal
  have low := x.scale_ge
  rw [isZero, decide_eq_true_iff]
  omega

/-- The shortest digits of a number round to it. -/
theorem holds_shortest (x : Binary64) : x.Holds x.shortest.value := by
  rw [shortest]
  split
  · rename_i zero
    have self := x.holds_self
    rw [isZero_iff.mp zero, Nat.cast_zero, zero_mul] at self
    have value : (⟨.zero, [], 0⟩ : Scientific).value = 0 := zero_mul _
    rwa [value]
  · rename_i nonzero
    have positive : 0 < x.significand :=
      Nat.pos_of_ne_zero fun none => nonzero (isZero_iff.mpr none)
    have found := RoundingInterval.holds_search (holds_center positive)
      ((Decimal.reversedDigits (RoundingInterval.of x).center).length - 1)
    dsimp only
    generalize (RoundingInterval.of x).search
      ((Decimal.reversedDigits (RoundingInterval.of x).center).length - 1) = taken at found ⊢
    have holds := holds_of_interval positive found
    have some : taken.1 ≠ 0 := by
      intro none
      rw [none, Nat.zero_mul, Nat.cast_zero, zero_mul] at holds
      exact nonzero (decide_eq_true (holds.magnitude_eq_zero (by positivity)))
    rw [Scientific.value_ofNat some, add_comm, zpow_add₀ (by norm_num), zpow_natCast, ← mul_assoc]
    exact_mod_cast holds

end Binary64

end RubyReader
