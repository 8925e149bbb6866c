/-
# `Layout` — a number is read back from how it is written

Either form of a decimal is digits around a point, with an exponent behind them or none
(`exists_decimal`); the zeros that fill up a side change nothing (`value_filled`).  Since
the shortest digits round to their number, every number is read from its text
(`readFloat?_write`).
-/
import RubyReader.Number.Layout
import RubyReader.Proofs.Number.Shortest

namespace RubyReader

open Decimal (text value? digits)

/-! ## Digits around a point

A side of the point without digits is filled with a zero, which changes no value. -/

namespace FloatLayout

theorem value_filled (whole part : List Digit) (exponent : Int) :
    (Decimal.value ((if whole.isEmpty then [.zero] else whole)
          ++ if part.isEmpty then [.zero] else part) : ℚ)
        * 10 ^ (exponent - ((if part.isEmpty then [.zero] else part) : List Digit).length)
      = Decimal.value (whole ++ part) * 10 ^ (exponent - part.length) := by
  have front : Decimal.value ((if whole.isEmpty then [.zero] else whole) ++ part)
      = Decimal.value (whole ++ part) := by
    cases whole with
    | nil => exact Decimal.value_zeros_append 1 part
    | cons => rfl
  cases part with
  | nil =>
      rw [List.append_nil, List.append_nil] at front
      show (Decimal.value (_ ++ List.replicate 1 .zero) : ℚ) * 10 ^ (exponent - (1 : Nat)) = _
      rw [Decimal.value_append_zeros, front, List.append_nil, List.length_nil]
      push_cast
      rw [sub_zero, mul_assoc, ← zpow_one_add₀ (by norm_num), add_sub_cancel]
  | cons => rw [← front]; rfl

/-- What stands behind the digits of a decimal: its exponent, if there is one. -/
def exponentPart : Option Int → List Char
  | none => []
  | some exponent => 'e' :: FloatLayout.value.exponentText exponent

/-- The exponent that a decimal shows: none if it has positional form. -/
def shownExponent (s : Scientific) : Option Int :=
  if s.exponent < -4 || 15 < s.exponent then some s.exponent else none

/-! ## The two forms -/

theorem exists_positional (s : Scientific) :
    ∃ whole part, positional s = pointed whole part ∧
      (Decimal.value (whole ++ part) : ℚ) * 10 ^ (-(part.length : Int)) = s.value := by
  have length : s.digits.length = s.rest.length + 1 := List.length_cons
  rw [positional]
  split
  · rename_i negative
    refine ⟨_, _, rfl, ?_⟩
    rw [List.nil_append, zeros, Decimal.value_zeros_append, Scientific.value, List.length_append,
      List.length_replicate, length]
    congr 2
    omega
  · rename_i positive
    refine ⟨_, _, rfl, ?_⟩
    generalize point_eq : s.exponent.toNat + 1 = point
    rcases Nat.le_total s.digits.length point with le | le
    · have exponent : s.exponent - s.rest.length = (point - s.digits.length : Nat) := by omega
      rw [List.take_of_length_le le, List.drop_of_length_le le, List.append_nil, zeros,
        Decimal.value_append_zeros, Scientific.value, List.length_nil, exponent, zpow_natCast]
      push_cast
      exact mul_one _
    · rw [Nat.sub_eq_zero_of_le le, zeros, List.replicate_zero, List.append_nil,
        List.take_append_drop, Scientific.value, List.length_drop]
      congr 2
      omega

/-- In either form a decimal is digits around a point, some on each side, with an exponent or
without. -/
theorem exists_decimal (s : Scientific) :
    ∃ whole part, whole ≠ [] ∧ part ≠ [] ∧
      FloatLayout.value.decimal s
        = text whole ++ '.' :: (text part ++ exponentPart (shownExponent s)) ∧
      (Decimal.value (whole ++ part) : ℚ) * 10 ^ ((shownExponent s).getD 0 - part.length)
        = s.value := by
  obtain ⟨whole, part, form, same⟩ : ∃ whole part,
      FloatLayout.value.decimal s = pointed whole part ++ exponentPart (shownExponent s) ∧
        (Decimal.value (whole ++ part) : ℚ) * 10 ^ ((shownExponent s).getD 0 - part.length)
          = s.value := by
    rw [decimal, shownExponent]
    split
    · refine ⟨[s.lead], s.rest, ?_, rfl⟩
      rw [scientific]
      simp [FloatLayout.value, exponentPart]
    · obtain ⟨whole, part, form, same⟩ := exists_positional s
      exact ⟨whole, part, by rw [form, exponentPart, List.append_nil], by simpa using same⟩
  refine ⟨_, _, ?_, ?_, ?_, (value_filled whole part _).trans same⟩
  · cases whole <;> simp
  · cases part <;> simp
  · rw [form, pointed, List.append_assoc, List.cons_append]

/-- A decimal begins with a digit. -/
theorem head_decimal (s : Scientific) :
    ∃ digit rest, FloatLayout.value.decimal s = Digit.char digit :: rest := by
  obtain ⟨whole, part, nonempty, -, form, -⟩ := exists_decimal s
  cases whole with
  | nil => exact absurd rfl nonempty
  | cons digit more => exact ⟨digit, _, form⟩

/-! ## Reading the forms -/

theorem readExponent?_exponentText (layout : FloatLayout) (exponent : Int) :
    readExponent? ('e' :: layout.exponentText exponent) = some exponent := by
  let shown := zeros (layout.exponentDigits - (digits exponent.natAbs).length)
    ++ digits exponent.natAbs
  have nonempty : shown ≠ [] := List.append_ne_nil_of_right_ne_nil _ (Decimal.digits_ne_nil _)
  have amount : Decimal.value shown = exponent.natAbs :=
    (Decimal.value_zeros_append _ _).trans (Decimal.value_digits _)
  have read : value? (text shown) = some exponent.natAbs := by
    rw [Decimal.value?_text nonempty, amount]
  have split : splitSign (layout.exponentText exponent) = (decide (exponent < 0), text shown) := by
    rw [exponentText]
    by_cases negative : exponent < 0
    · rw [if_pos negative, decide_eq_true negative]
      rfl
    · rw [if_neg negative, decide_eq_false negative]
      split
      · rfl
      · have unsigned : splitSign (withSign false (text shown ++ [])).toList = _ :=
          splitSign_withSign (Decimal.head_text nonempty [])
        rwa [List.append_nil, withSign, String.toList_ofList] at unsigned
  have same : (if decide (exponent < 0) = true then -(exponent.natAbs : Int) else exponent.natAbs)
      = exponent := by
    by_cases negative : exponent < 0
    · rw [if_pos (decide_eq_true negative)]
      omega
    · rw [if_neg (by simpa using negative)]
      omega
  rw [readExponent?, if_pos (by decide), split]
  dsimp only
  rw [read]
  exact congrArg some same

theorem readExponent?_exponentPart (exponent : Option Int) :
    readExponent? (exponentPart exponent) = some (exponent.getD 0) := by
  cases exponent with
  | none => rfl
  | some exponent => exact readExponent?_exponentText _ exponent

theorem head_exponentPart {exponent : Option Int} {c : Char}
    (h : c ∈ (exponentPart exponent).head?) : c.isDigit = false := by
  cases exponent with
  | none => cases h
  | some exponent => cases h; rfl

/-- The digits of a decimal, scaled by its exponent, are what it stands for. -/
theorem parts?_decimal (s : Scientific) :
    ∃ n shift, Decimal.parts? (FloatLayout.value.decimal s) = some (n, shift) ∧
      (n : ℚ) * 10 ^ shift = s.value := by
  obtain ⟨whole, part, nonempty, -, form, same⟩ := exists_decimal s
  rw [form]
  exact ⟨_, _, Decimal.parts?_text part nonempty (fun _ => head_exponentPart)
    (readExponent?_exponentPart _), same⟩

theorem readDecimal?_decimal (s : Scientific) :
    ∃ n shift, readDecimal? (FloatLayout.value.decimal s) = some (nearestDecimal n shift) ∧
      (n : ℚ) * 10 ^ shift = s.value := by
  obtain ⟨n, shift, read, same⟩ := parts?_decimal s
  exact ⟨n, shift, by rw [readDecimal?_eq, read, Option.map_some], same⟩

/-! ## The characters of a decimal -/

theorem mem_exponentPart {exponent : Option Int} {c : Char} (mem : c ∈ exponentPart exponent) :
    c.isDigit = true ∨ c = 'e' ∨ c = '+' ∨ c = '-' := by
  cases exponent with
  | none => cases mem
  | some exponent =>
      rw [exponentPart, exponentText, List.mem_cons, List.mem_append] at mem
      rcases mem with rfl | mem | mem
      · exact .inr (.inl rfl)
      · split at mem
        · exact .inr (.inr (.inr (List.mem_singleton.mp mem)))
        · exact .inr (.inr (.inl (List.mem_singleton.mp mem)))
      · exact .inl (Decimal.isDigit_of_mem_text mem)

theorem mem_decimal {s : Scientific} {c : Char} (mem : c ∈ FloatLayout.value.decimal s) :
    c.isDigit = true ∨ c = '.' ∨ c = 'e' ∨ c = '+' ∨ c = '-' := by
  obtain ⟨whole, part, -, -, form, -⟩ := exists_decimal s
  rw [form, List.mem_append, List.mem_cons, List.mem_append] at mem
  rcases mem with mem | rfl | mem | mem
  · exact .inl (Decimal.isDigit_of_mem_text mem)
  · exact .inr (.inl rfl)
  · exact .inl (Decimal.isDigit_of_mem_text mem)
  · exact (mem_exponentPart mem).imp_right .inr

theorem count_point_decimal (s : Scientific) : (FloatLayout.value.decimal s).count '.' = 1 := by
  obtain ⟨whole, part, -, -, form, -⟩ := exists_decimal s
  have digits (digits : List Digit) : (text digits).count '.' = 0 :=
    List.count_eq_zero_of_not_mem fun mem => absurd (Decimal.isDigit_of_mem_text mem) (by decide)
  have behind : (exponentPart (shownExponent s)).count '.' = 0 :=
    List.count_eq_zero_of_not_mem fun mem => absurd (mem_exponentPart mem) (by decide)
  rw [form, List.count_append, List.count_cons_self, List.count_append, digits, digits, behind]

theorem point_mem_decimal (s : Scientific) : '.' ∈ FloatLayout.value.decimal s :=
  List.count_pos_iff.mp (by rw [count_point_decimal]; exact Nat.one_pos)

/-! ## Whole numbers -/

/-- A number is written as its sign and its magnitude. -/
theorem write_eq {x : Binary64} (notNaN : x.isNaN = false) :
    FloatLayout.value.write x = withSign x.negative
      (if x.isInfinite then "Infinity".toList else FloatLayout.value.decimal x.shortest) := by
  rw [write, notNaN, if_neg Bool.false_ne_true, withSign, ← String.toList_inj]
  cases x.negative <;> cases x.isInfinite <;> simp [FloatLayout.value]

/-- Every number is read from its text. -/
theorem readFloat?_write {x : Binary64} (notNaN : x.isNaN = false) :
    readFloat? (FloatLayout.value.write x) = some x := by
  rw [write_eq notNaN]
  by_cases infinite : x.isInfinite = true
  · have read (negative : Bool) : readFloat? (withSign negative "Infinity".toList)
        = some (.ofMagnitude negative Binary64.infinityBits) := by
      cases negative <;> rfl
    rw [if_pos infinite, read, ← x.magnitude_of_isInfinite infinite, x.ofMagnitude_eq]
  · have below := x.magnitude_lt notNaN (Bool.eq_false_of_not_eq_true infinite)
    obtain ⟨digit, rest, begins⟩ := head_decimal x.shortest
    obtain ⟨n, shift, read, same⟩ := readDecimal?_decimal x.shortest
    have holds := x.holds_shortest
    rw [← same] at holds
    rw [if_neg infinite, readFloat?, splitSign_withSign]
    · dsimp only
      rw [begins, readMagnitude?_eq, ← begins, read, Option.map_some,
        nearestDecimal_eq below holds, x.ofMagnitude_eq]
    · rw [begins]
      exact ⟨digit.char, rfl, digit.isDigit_char⟩

end FloatLayout

end RubyReader
