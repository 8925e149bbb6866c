/-
# `Denotation` — a number keeps its value when it is laid out

The shortest digits of a finite number stand in front of an exponent `k`, and the text of the
number lays them out anew:

    exponent form            lead ( '.' rest )? 'e' k
    text, -4 ≤ k ≤ 15        '-'? digit+ '.' digit+
    text, otherwise          '-'? digit+ '.' digit+ 'e' sign digit digit+

Both denote the same rational, up to the sign that the text has if and only if the sign bit is
set (`Value.text_float_denotes`).  What a decimal denotes is its digits as one number, scaled
by the places behind the point and by the exponent: this is also what is rounded when the text
is read (`readDecimal?_eq`).
-/
import RubyReader.Proofs.Checked.Numbers

namespace RubyReader

/-! ## What a decimal denotes -/

/-- The rational that a decimal denotes, which may have a sign. -/
def Decimal.denoted? (chars : List Char) : Option ℚ :=
  let (negative, rest) := splitSign chars
  (parts? rest).map fun (n, exponent) =>
    if negative then -(n * 10 ^ exponent) else n * 10 ^ exponent

theorem Decimal.denoted?_withSign {chars : List Char} {n : Nat} {exponent : Int} {r : ℚ}
    (digit : ∃ c ∈ chars.head?, c.isDigit = true) (parts : parts? chars = some (n, exponent))
    (same : n * 10 ^ exponent = r) (negative : Bool) :
    denoted? (withSign negative chars).toList = some (if negative then -r else r) := by
  rw [denoted?, splitSign_withSign digit]
  dsimp only
  rw [parts, Option.map_some, same]

namespace FloatLayout

variable (s : Scientific)

/-- The exponent form denotes what its digits stand for. -/
theorem denoted?_scientific : Decimal.denoted? (listing.scientific s) = some s.value := by
  obtain ⟨lead, rest, exponent⟩ := s
  have scale := readExponent?_exponentText listing exponent
  obtain ⟨chars, form, parts⟩ : ∃ chars, listing.scientific ⟨lead, rest, exponent⟩
      = Decimal.text [lead] ++ chars ∧ Decimal.parts? (Decimal.text [lead] ++ chars)
        = some (Decimal.value (lead :: rest), exponent - rest.length) := by
    cases rest with
    | nil =>
        refine ⟨_, rfl, ?_⟩
        rw [List.length_nil, Int.natCast_zero, Int.sub_zero]
        exact Decimal.parts?_whole (List.cons_ne_nil _ _) (by simp) scale
    | cons digit more =>
        exact ⟨'.' :: (Decimal.text (digit :: more) ++ 'e' :: listing.exponentText exponent), rfl,
          Decimal.parts?_text _ (List.cons_ne_nil _ _) (by simp) scale⟩
  have digit : ∃ c ∈ (Decimal.text [lead] ++ chars).head?, c.isDigit = true :=
    Decimal.head_text (List.cons_ne_nil _ _) chars
  have unsigned := Decimal.denoted?_withSign digit parts rfl false
  rwa [withSign, String.toList_ofList, ← form] at unsigned

/-- With a sign or without, the text of a decimal denotes what its digits stand for. -/
theorem denoted?_decimal (negative : Bool) :
    Decimal.denoted? (withSign negative (value.decimal s)).toList
      = some (if negative then -s.value else s.value) := by
  obtain ⟨digit, rest, begins⟩ := head_decimal s
  obtain ⟨n, exponent, parts, same⟩ := parts?_decimal s
  refine Decimal.denoted?_withSign ⟨digit.char, ?_, digit.isDigit_char⟩ parts same negative
  rw [begins]
  rfl

theorem exists_exponentText (exponent : Int) :
    ∃ sign digits, (sign = '+' ∨ sign = '-') ∧ 2 ≤ digits.length ∧
      value.exponentText exponent = sign :: Decimal.text digits := by
  refine ⟨_, _, ?_, ?_, exponentText_value exponent⟩
  · split
    · exact .inr rfl
    · exact .inl rfl
  · rw [zeros, List.length_append, List.length_replicate]
    omega

/-- What stands behind the digits of a decimal, and when it does. -/
theorem exponentPart_shownExponent :
    if s.exponent < -4 ∨ 15 < s.exponent then
      ∃ sign digits, (sign = '+' ∨ sign = '-') ∧ 2 ≤ digits.length ∧
        exponentPart (shownExponent s) = 'e' :: sign :: Decimal.text digits
    else exponentPart (shownExponent s) = [] := by
  simp only [shownExponent, Bool.or_eq_true, decide_eq_true_eq]
  split
  · obtain ⟨sign, digits, isSign, two, form⟩ := exists_exponentText s.exponent
    exact ⟨sign, digits, isSign, two, congrArg ('e' :: ·) form⟩
  · rfl

end FloatLayout

/-! ## Numbers as values -/

/-- The text of a finite number denotes what its exponent form denotes, behind a minus sign
if and only if the sign bit is set.  It has digits on both sides of its only point, and an
exponent if and only if that of the exponent form is less than -4 or greater than 15. -/
theorem Value.text_float_denotes {x : Binary64} (number : x.isNaN = false)
    (finite : x.isInfinite = false) :
    let printed := FloatLayout.listing.scientific x.shortest
    let k := x.shortest.exponent
    (∃ mantissa, printed = mantissa ++ 'e' :: (toString k).toList ∧ 'e' ∉ mantissa) ∧
    ∃ r magnitude, Decimal.denoted? printed = some r ∧
      (Value.text (.float x)).toList = (if x.negative then '-' :: magnitude else magnitude) ∧
      Decimal.denoted? (Value.text (.float x)).toList = some (if x.negative then -r else r) ∧
      magnitude.count '.' = 1 ∧
      ∃ whole part tail,
        magnitude = Decimal.text whole ++ '.' :: (Decimal.text part ++ tail) ∧
        whole ≠ [] ∧ part ≠ [] ∧
        if k < -4 ∨ 15 < k then
          ∃ sign digits, (sign = '+' ∨ sign = '-') ∧ 2 ≤ digits.length ∧
            tail = 'e' :: sign :: Decimal.text digits
        else tail = [] := by
  intro printed k
  have text : Value.text (.float x)
      = withSign x.negative (FloatLayout.value.decimal x.shortest) := by
    rw [Value.text, FloatLayout.write_eq number, finite, if_neg Bool.false_ne_true]
  obtain ⟨mantissa, form, noExponent, -⟩ := FloatLayout.exists_mantissa x.shortest
  obtain ⟨whole, part, some, some', shape, -⟩ := FloatLayout.exists_decimal x.shortest
  refine ⟨⟨mantissa, ?_, fun mem => noExponent _ mem rfl⟩, x.shortest.value, _,
    FloatLayout.denoted?_scientific _, ?_, ?_, FloatLayout.count_point_decimal x.shortest,
    whole, part, _, shape, some, some', FloatLayout.exponentPart_shownExponent _⟩
  · rw [toString_int, ← FloatLayout.exponentText_listing]
    exact form
  · rw [text, withSign, String.toList_ofList]
  · rw [text]
    exact FloatLayout.denoted?_decimal _ _

/-- A negative number below one whose digits stand behind zeros, with the last exponent that
is not shown. -/
theorem Value.text_float_denotes_of_small :
    ∃ x : Binary64, x.isNaN = false ∧ x.isInfinite = false ∧ x.negative = true ∧
      Value.text (.float x) = "-0.000125" ∧
      ∃ r, Decimal.denoted? (FloatLayout.listing.scientific x.shortest) = some r ∧
        Decimal.denoted? (Value.text (.float x)).toList = some (-r) := by
  let x : Binary64 := ⟨0xBF20624DD2F1A9FC⟩
  have number : x.isNaN = false := by decide +kernel
  have finite : x.isInfinite = false := by decide +kernel
  have negative : x.negative = true := by decide +kernel
  obtain ⟨-, r, magnitude, printed, -, shown, -⟩ := text_float_denotes number finite
  rw [if_pos negative] at shown
  exact ⟨x, number, finite, negative, by decide +kernel, r, printed, shown⟩

end RubyReader
