/-
# `Written` — every number has a text

A decimal that rounds to a finite number is read as this number, since it lies far from
where decimals are cut off (`nearestDecimal_eq`).  A finite number `m · 2^q` is a decimal
itself: with `q < 0` it is `m · 5^(-q)` with the point `-q` digits from its end.  So it is
read back when it is written out in full; and infinity is read from any decimal that is
large enough (`readFloat?_text`).  No text that begins with a digit is read as something
that is no number (`isNaN_of_readFloat?`).
-/
import RubyReader.Proofs.Number.Decimal
import RubyReader.Proofs.Number.Nearest

namespace RubyReader

/-! ## Decimals with a point

The digits on both sides of the point are one number, and those behind it count against the
exponent of the power of ten that scales it. -/

namespace Decimal

/-- The digits of a number, with zeros in front of them so that more than some are there. -/
def padded (n places : Nat) : List Digit :=
  List.replicate (places + 1 - (digits n).length) .zero ++ digits n

/-- The digits of a number, with a point in front of the last of them. -/
def pointed (n places : Nat) : List Char :=
  text ((padded n places).take ((padded n places).length - places)) ++
    '.' :: text ((padded n places).drop ((padded n places).length - places))

theorem exists_pointed (n places : Nat) :
    ∃ whole part, pointed n places = text whole ++ '.' :: text part ∧ whole ≠ [] ∧
      part.length = places ∧ value (whole ++ part) = n := by
  have long : places < (padded n places).length := by
    rw [padded, List.length_append, List.length_replicate]
    omega
  refine ⟨_, _, rfl, fun none => ?_, ?_, ?_⟩
  · have length := congrArg List.length none
    rw [List.length_take, List.length_nil] at length
    omega
  · rw [List.length_drop]
    omega
  · rw [List.take_append_drop, padded, value_zeros_append, value_digits]

end Decimal

namespace Decimal

/-- The digits of an unsigned decimal as one number, and the exponent of the power of ten
that scales it. -/
def parts? (chars : List Char) : Option (Nat × Int) :=
  let whole := chars.takeWhile Char.isDigit
  let (part, rest) :=
    match chars.dropWhile Char.isDigit with
    | '.' :: more => (more.takeWhile Char.isDigit, more.dropWhile Char.isDigit)
    | rest => ([], rest)
  match value? (whole ++ part), readExponent? rest with
  | some n, some exponent => some (n, exponent - part.length)
  | _, _ => none

variable {whole : List Digit} {rest : List Char} {exponent : Int}

/-- Digits without a point are scaled by an exponent. -/
theorem parts?_whole (nonempty : whole ≠ [])
    (ends : ∀ c ∈ rest.head?, c.isDigit = false ∧ c ≠ '.')
    (scale : readExponent? rest = some exponent) :
    parts? (text whole ++ rest) = some (value whole, exponent) := by
  have noDigit : ∀ c ∈ rest.head?, c.isDigit = false := fun c head => (ends c head).1
  unfold parts?
  rw [takeWhile_text _ noDigit, dropWhile_text _ noDigit]
  split
  · rename_i point
    split at point
    · exact absurd rfl (ends '.' rfl).2
    · obtain ⟨rfl, rfl⟩ := Prod.mk.inj point
      simp [value?_text nonempty, scale]

/-- Digits around a point are scaled by what is behind the point and by an exponent. -/
theorem parts?_text (part : List Digit) (nonempty : whole ≠ [])
    (ends : ∀ c ∈ rest.head?, c.isDigit = false) (scale : readExponent? rest = some exponent) :
    parts? (text whole ++ '.' :: (text part ++ rest))
      = some (value (whole ++ part), exponent - part.length) := by
  have both : value? (text whole ++ text part) = some (value (whole ++ part)) := by
    rw [text, text, ← List.map_append]
    exact value?_text (List.append_ne_nil_of_left_ne_nil nonempty part)
  unfold parts?
  rw [takeWhile_text _ (by simp), dropWhile_text _ (by simp)]
  simp only [takeWhile_text _ ends, dropWhile_text _ ends, both, scale]
  rw [text, List.length_map]

end Decimal

theorem readDecimal?_eq (chars : List Char) :
    readDecimal? chars
      = (Decimal.parts? chars).map fun (n, exponent) => nearestDecimal n exponent := by
  unfold readDecimal? Decimal.parts?
  dsimp only
  generalize Decimal.value? _ = digits
  generalize readExponent? _ = scale
  cases digits with
  | none => rfl
  | some n =>
      cases scale with
      | none => rfl
      | some exponent => rfl

open Decimal in
/-- Digits around a point are read as their number, scaled by what is behind the point and
by an exponent. -/
theorem readDecimal?_text {whole : List Digit} (part : List Digit) {rest : List Char}
    {exponent : Int} (nonempty : whole ≠ []) (ends : ∀ c ∈ rest.head?, c.isDigit = false)
    (scale : readExponent? rest = some exponent) :
    readDecimal? (text whole ++ '.' :: (text part ++ rest))
      = some (nearestDecimal (value (whole ++ part)) (exponent - part.length)) := by
  rw [readDecimal?_eq, parts?_text part nonempty ends scale, Option.map_some]

theorem readMagnitude?_eq {digit : Digit} {chars : List Char} :
    readMagnitude? (digit.char :: chars) = readDecimal? (digit.char :: chars) := by
  have noName (name : String) (first : Char) (rest : List Char) (letter : first.isDigit = false)
      (spelled : name.toList = first :: rest) :
      String.ofList ((digit.char :: chars).map Char.toLower) ≠ name := by
    intro e
    rw [← e, String.toList_ofList, List.map_cons, Digit.toLower_char] at spelled
    rw [← (List.cons.inj spelled).1, digit.isDigit_char] at letter
    cases letter
  unfold readMagnitude?
  split
  · rename_i e
    exact absurd e (noName "inf" 'i' ['n', 'f'] rfl rfl)
  · rename_i e
    exact absurd e (noName "infinity" 'i' "nfinity".toList rfl rfl)
  · rename_i e
    exact absurd e (noName "nan" 'n' ['a', 'n'] rfl rfl)
  · rfl

open Decimal in
/-- With or without a sign, a decimal with a point is read as its number, scaled by what
is behind the point. -/
theorem readFloat?_pointed (negative : Bool) (n places : Nat) :
    readFloat? (withSign negative (pointed n places))
      = some (.ofMagnitude negative (nearestDecimal n (-(places : Int)))) := by
  obtain ⟨whole, part, spelled, nonempty, rfl, rfl⟩ := exists_pointed n places
  rw [readFloat?, spelled, splitSign_withSign (head_text nonempty _)]
  dsimp only
  cases whole with
  | nil => exact absurd rfl nonempty
  | cons digit more =>
      have read : readDecimal? (text (digit :: more) ++ '.' :: (text part ++ [])) = _ :=
        readDecimal?_text part nonempty (by simp) rfl
      rw [List.append_nil, zero_sub, text, List.map_cons, List.cons_append] at read
      rw [text, List.map_cons, List.cons_append, readMagnitude?_eq, read, Option.map_some]

/-! ## Nearest numbers

Reading computes no power of ten beyond certain ones.  What rounds to a finite number stays
within these bounds, unless it rounds to zero. -/

theorem Decimal.power_bounds {n : Nat} (pos : n ≠ 0) (exponent : Int) :
    (10 : ℚ) ^ (exponent + (reversedDigits n).length - 1) ≤ n * 10 ^ exponent ∧
      (n : ℚ) * 10 ^ exponent < 10 ^ (exponent + (reversedDigits n).length) := by
  have low : (10 : ℚ) ^ Nat.log 10 n ≤ n := by exact_mod_cast Nat.pow_log_le_self 10 pos
  have high : (n : ℚ) < 10 ^ (Nat.log 10 n + 1) := by
    exact_mod_cast Nat.lt_pow_succ_log_self (by decide) n
  have ten : (10 : ℚ) ≠ 0 := by norm_num
  have lower : exponent + (reversedDigits n).length - 1 = (Nat.log 10 n : Nat) + exponent := by
    have length := length_reversedDigits n
    omega
  have upper : exponent + (reversedDigits n).length = (Nat.log 10 n + 1 : Nat) + exponent := by
    have length := length_reversedDigits n
    omega
  rw [lower, upper, zpow_add₀ ten, zpow_add₀ ten, zpow_natCast, zpow_natCast]
  constructor <;> gcongr

/-- A thousand binary places are some three hundred decimal ones. -/
theorem two_pow_le : (2 : ℚ) ^ 1023 ≤ 10 ^ 308 := by
  calc (2 : ℚ) ^ 1023 = (2 ^ 93) ^ 11 := by rw [← pow_mul]
    _ ≤ (10 ^ 28) ^ 11 := by gcongr; norm_num
    _ = 10 ^ 308 := by rw [← pow_mul]

namespace Binary64

variable {x : Binary64} {r : ℚ}

/-- What rounds to a finite number has at most 309 decimal places in front of its point. -/
theorem Holds.lt_ten_pow (h : x.Holds r) (finite : x.magnitude < infinityBits) :
    r < 10 ^ (309 : Int) := by
  have scale : (2 : ℚ) ^ x.scale ≤ 2 ^ (971 : Int) :=
    zpow_le_zpow_right₀ one_le_two (x.scale_le finite)
  calc r < 2 ^ 53 * 2 ^ x.scale := h.lt
    _ ≤ 2 ^ 53 * 2 ^ 971 := by gcongr; exact_mod_cast scale
    _ = 2 ^ 1023 * 2 := by rw [← pow_add, ← pow_succ]
    _ ≤ 10 ^ 308 * 10 := mul_le_mul two_pow_le (by norm_num) (by norm_num) (by positivity)
    _ = 10 ^ (309 : Int) := by rw [← pow_succ]; rfl

/-- What has too many zeros behind its point rounds to zero. -/
theorem Holds.magnitude_eq_zero (h : x.Holds r) (tiny : r < 10 ^ (-329 : Int)) :
    x.magnitude = 0 := by
  have least : (2 : ℚ) ^ (-1074 : Int) ≤ 2 ^ x.scale := zpow_le_zpow_right₀ one_le_two x.scale_ge
  have half : (10 : ℚ) ^ (-329 : Int) ≤ 1 / 2 * 2 ^ (-1074 : Int) := by
    have large : (2 : ℚ) ^ 1075 ≤ 10 ^ 329 := by
      calc (2 : ℚ) ^ 1075 = 2 ^ 1023 * 2 ^ 52 := by rw [← pow_add]
        _ ≤ 10 ^ 308 * 10 ^ 21 := mul_le_mul two_pow_le (by norm_num) (by positivity) (by positivity)
        _ = 10 ^ 329 := by rw [← pow_add]
    have power : (2 : ℚ) * 2 ^ (1074 : Int) = 2 ^ 1075 :=
      (zpow_one_add₀ two_ne_zero 1074).symm.trans (zpow_natCast 2 1075)
    rw [zpow_neg, zpow_neg, one_div, ← mul_inv]
    refine inv_anti₀ (by positivity) ?_
    rw [power]
    exact large.trans_eq (zpow_natCast 10 329).symm
  have small : (x.significand - 1 / 2 : ℚ) * 2 ^ x.scale < 1 / 2 * 2 ^ x.scale := by
    calc _ ≤ r := x.half_below_le.trans h.low
      _ < 1 / 2 * 2 ^ (-1074 : Int) := tiny.trans_le half
      _ ≤ 1 / 2 * 2 ^ x.scale := by gcongr
  have less := lt_of_mul_lt_mul_right small (by positivity)
  have zero : x.significand = 0 := by
    have : (x.significand : ℚ) < 1 := by linarith
    exact Nat.lt_one_iff.mp (by exact_mod_cast this)
  have scale : x.scale = -1074 := x.normal.resolve_left (by omega)
  rw [magnitude_eq, zero, scale]
  rfl

end Binary64

theorem nearestDecimal_eq {x : Binary64} (finite : x.magnitude < Binary64.infinityBits) {n : Nat}
    {exponent : Int} (holds : x.Holds (n * 10 ^ exponent)) :
    nearestDecimal n exponent = x.magnitude := by
  have ten : (1 : ℚ) < 10 := by norm_num
  rw [nearestDecimal]
  split
  · rename_i zero
    refine (holds.magnitude_eq_zero ?_).symm
    rw [zero, Nat.cast_zero, zero_mul]
    positivity
  · rename_i nonzero
    obtain ⟨low, high⟩ := Decimal.power_bounds nonzero exponent
    have atMost := (zpow_lt_zpow_iff_right₀ ten).mp (low.trans_lt (holds.lt_ten_pow finite))
    dsimp only
    rw [if_neg (by omega)]
    split
    · rename_i many
      exact (holds.magnitude_eq_zero (high.trans (zpow_lt_zpow_right₀ ten many))).symm
    · have quotient : ((n * 10 ^ exponent.toNat : Nat) : ℚ) / (10 ^ (-exponent).toNat : Nat)
          = n * 10 ^ exponent := by
        rw [zpow_eq_div (by norm_num) exponent]
        push_cast
        rw [mul_div_assoc]
      rw [Nat.pow_eq, Nat.pow_eq]
      refine nearestBits_eq finite (by positivity) (by positivity) ?_
      rwa [quotient]

/-! ## Floating point numbers -/

namespace Binary64

variable (x : Binary64)

/-- The digits of a number and how many of them stand behind the point; infinity is
written as a decimal that is too large. -/
def expansion : Nat × Nat :=
  if x.isInfinite then (10 ^ 312, 1)
  else if x.scale < 0 then (x.significand * 5 ^ (-x.scale).toNat, (-x.scale).toNat)
  else (x.significand * 2 ^ x.scale.toNat * 10, 1)

/-- The expansion of a finite number is exact. -/
theorem expansion_eq (finite : x.isInfinite = false) :
    (x.expansion.1 : ℚ) / (10 ^ x.expansion.2 : Nat) = x.significand * 2 ^ x.scale := by
  rw [expansion, finite, if_neg Bool.false_ne_true]
  split
  · rename_i negative
    have places : (x.scale : Int) = -((-x.scale).toNat : Int) := by omega
    rw [places, zpow_neg, zpow_natCast, neg_neg, Int.toNat_natCast]
    push_cast
    rw [show (10 : ℚ) = 5 * 2 by norm_num, mul_pow]
    field_simp
  · rename_i nonnegative
    have places : (x.scale : Int) = (x.scale.toNat : Int) := by omega
    rw [places, zpow_natCast, Int.toNat_natCast]
    push_cast
    ring

/-- The expansion of a number is read as its magnitude. -/
theorem nearestDecimal_expansion (notNaN : x.isNaN = false) :
    nearestDecimal x.expansion.1 (-(x.expansion.2 : Int)) = x.magnitude := by
  by_cases infinite : x.isInfinite = true
  · have digits : (Decimal.reversedDigits (10 ^ 312)).length = 313 := by
      rw [Decimal.length_reversedDigits, Nat.log_pow (by decide)]
    rw [expansion, if_pos infinite, nearestDecimal, if_neg (by positivity), digits,
      x.magnitude_of_isInfinite infinite]
    rfl
  · have finite : x.isInfinite = false := by simpa using infinite
    refine nearestDecimal_eq (x.magnitude_lt notNaN finite) ?_
    have exact' := x.expansion_eq finite
    rw [zpow_neg, zpow_natCast, ← div_eq_mul_inv]
    push_cast at exact'
    rw [exact']
    exact x.holds_self

def text : String := withSign x.negative (Decimal.pointed x.expansion.1 x.expansion.2)

end Binary64

/-- Every number is read from its text. -/
theorem readFloat?_text {x : Binary64} (notNaN : x.isNaN = false) : readFloat? x.text = some x := by
  rw [Binary64.text, readFloat?_pointed, x.nearestDecimal_expansion notNaN, x.ofMagnitude_eq]

/-! ## What digits write is a number -/

theorem nearestDecimal_le (n : Nat) (exponent : Int) :
    nearestDecimal n exponent ≤ Binary64.infinityBits := by
  unfold nearestDecimal
  split
  · exact Nat.zero_le _
  · dsimp only
    split
    · exact Nat.le_refl _
    · split
      · exact Nat.zero_le _
      · exact Nat.min_le_left _ _

theorem readDecimal?_le {chars : List Char} {magnitude : Nat}
    (h : readDecimal? chars = some magnitude) : magnitude ≤ Binary64.infinityBits := by
  rw [readDecimal?_eq] at h
  obtain ⟨⟨n, exponent⟩, -, rfl⟩ := Option.map_eq_some_iff.mp h
  exact nearestDecimal_le n exponent

theorem Binary64.isNaN_ofMagnitude {negative : Bool} {magnitude : Nat}
    (le : magnitude ≤ infinityBits) : (ofMagnitude negative magnitude).isNaN = false := by
  have bound : magnitude ≤ 2047 * 2 ^ 52 := le
  have same : (ofMagnitude negative magnitude).magnitude = magnitude := by
    simp only [Binary64.magnitude, ofMagnitude, UInt64.toNat_ofNat', Nat.pow_eq]
    cases negative <;> simp <;> omega
  rw [isNaN, same, decide_eq_false_iff_not]
  exact Nat.not_lt.mpr le

theorem isNaN_of_readFloat? {text : String} {d : Char} {more : List Char} {negative : Bool}
    (isDigit : d.isDigit = true) (split : splitSign text.toList = (negative, d :: more))
    {x : Binary64} (h : readFloat? text = some x) : x.isNaN = false := by
  obtain ⟨digit, rfl⟩ := Digit.exists_char isDigit
  rw [readFloat?, split] at h
  obtain ⟨magnitude, read, rfl⟩ := Option.map_eq_some_iff.mp h
  rw [readMagnitude?_eq] at read
  exact Binary64.isNaN_ofMagnitude (readDecimal?_le read)

end RubyReader
