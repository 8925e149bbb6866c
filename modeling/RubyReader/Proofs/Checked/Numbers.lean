/-
# `Numbers` — numbers written from their exponent form

The shortest digits of a number come in exponent form,

    lead ( '.' rest )? 'e' exponent

and are laid out anew: the digits are the characters in front of the `e` without the point,
and zeros or the point go where the exponent says.  A number of zeros may not be negative,
and a point may stand behind no more digits than there are.  Neither happens, since zeros
are put in front only for negative exponents, and at the end only if digits are missing
(`decimal?_eq`); the exponents of all finite numbers fit into 32 bits (`exponent_shortest`).
-/
import RubyReader.Proofs.Checked.Slices
import RubyReader.Proofs.Number.Layout
import RubyReader.Value.Display

namespace RubyReader

/-! ## Operations with a domain -/

/-- A number of zeros, which is not negative. -/
def zeros? (count : Int) : Option (List Char) :=
  if 0 ≤ count then some (List.replicate count.toNat '0') else none

/-- The magnitude of an integer of 32 signed bits, which the least one does not have. -/
def magnitude? (n : Int) : Option Nat := if -2 ^ 31 < n then some n.natAbs else none

/-- An integer of 32 signed bits; zero if a text is none. -/
def readExponent (chars : List Char) : Int :=
  let (negative, digits) := splitSign chars
  match Decimal.value? digits with
  | none => 0
  | some n =>
    let value : Int := if negative then -n else n
    if -2 ^ 31 ≤ value ∧ value < 2 ^ 31 then value else 0

namespace FloatLayout

/-- Lays a number in exponent form out as a value. -/
def decimal? (printed : List Char) : Option (List Char) :=
  let mantissa := printed.takeWhile (· ≠ 'e')
  let exponent := readExponent ((printed.dropWhile (· ≠ 'e')).drop 1)
  let digits := mantissa.filter (· ≠ '.')
  if exponent < -4 || 15 < exponent then
    (magnitude? exponent).map fun magnitude =>
      (if '.' ∈ mantissa then mantissa else mantissa ++ ['.', '0']) ++
        'e' :: (if exponent < 0 then '-' else '+') ::
          Decimal.text (zeros (2 - (Decimal.digits magnitude).length) ++ Decimal.digits magnitude)
  else if exponent < 0 then
    (zeros? (-exponent - 1)).map fun zeros => '0' :: '.' :: (zeros ++ digits)
  else
    let point := exponent.toNat + 1
    if byteLength digits ≤ point then
      (minus? point (byteLength digits)).map fun missing =>
        digits ++ List.replicate missing '0' ++ ['.', '0']
    else (splitBytes? point digits).map fun (whole, part) => whole ++ '.' :: part

/-- Writes a number as a value. -/
def write? (x : Binary64) : Option String :=
  if x.isNaN then some "NaN"
  else
    let sign := if x.negative then "-" else ""
    if x.isInfinite then some (sign ++ "Infinity")
    else (decimal? (listing.scientific x.shortest)).map fun chars => sign ++ String.ofList chars

/-! ## The exponent form

An exponent is a sign and digits, which take one byte each, so it can be cut off and read as
the integer that it is. -/

variable {s : Scientific}

theorem plain_char : ∀ digit : Digit,
    digit.char ≠ 'e' ∧ digit.char ≠ '.' ∧ digit.char.utf8Size = 1 := by decide

theorem ne_of_mem_text {digits : List Digit} {c : Char} (mem : c ∈ Decimal.text digits) :
    c ≠ 'e' ∧ c ≠ '.' := by
  obtain ⟨digit, -, rfl⟩ := List.mem_map.mp mem
  exact ⟨(plain_char digit).1, (plain_char digit).2.1⟩

theorem byteLength_text (digits : List Digit) :
    byteLength (Decimal.text digits) = digits.length := by
  induction digits with
  | nil => rfl
  | cons digit rest ih =>
      have one := (plain_char digit).2.2
      have others : byteLength (rest.map Digit.char) = rest.length := ih
      rw [Decimal.text, List.map_cons, byteLength_cons, one, others, List.length_cons, Nat.add_comm]

theorem filter_text (digits : List Digit) :
    (Decimal.text digits).filter (· ≠ '.') = Decimal.text digits :=
  List.filter_eq_self.mpr fun _ mem => decide_eq_true (ne_of_mem_text mem).2

theorem exists_mantissa (s : Scientific) :
    ∃ mantissa, listing.scientific s = mantissa ++ 'e' :: listing.exponentText s.exponent ∧
      (∀ c ∈ mantissa, c ≠ 'e') ∧ mantissa.filter (· ≠ '.') = Decimal.text s.digits ∧
        (if '.' ∈ mantissa then mantissa else mantissa ++ ['.', '0']) = pointed [s.lead] s.rest := by
  obtain ⟨lead, rest, exponent⟩ := s
  have first : ∀ c ∈ Decimal.text [lead], c ≠ 'e' ∧ c ≠ '.' := fun _ => ne_of_mem_text
  cases rest with
  | nil =>
      refine ⟨Decimal.text [lead], rfl, fun c mem => (first c mem).1, filter_text _, ?_⟩
      rw [if_neg fun point => (first '.' point).2 rfl]
      rfl
  | cons digit more =>
      have parts : pointed [lead] (digit :: more)
          = Decimal.text [lead] ++ '.' :: Decimal.text (digit :: more) := rfl
      refine ⟨pointed [lead] (digit :: more), rfl, ?_, ?_, ?_⟩
      · intro c mem
        rw [parts, List.mem_append, List.mem_cons] at mem
        rcases mem with mem | rfl | mem
        · exact (first c mem).1
        · decide
        · exact (ne_of_mem_text mem).1
      · rw [parts, List.filter_append, filter_text, List.filter_cons_of_neg (by decide),
          filter_text]
        rfl
      · exact if_pos (by simp [parts])

theorem exponentText_listing (exponent : Int) : listing.exponentText exponent
    = (withSign (exponent < 0) (Decimal.text (Decimal.digits exponent.natAbs))).toList := by
  have unpadded : listing.exponentDigits - (Decimal.digits exponent.natAbs).length = 0 :=
    Nat.sub_eq_zero_of_le (List.length_pos_iff.mpr (Decimal.digits_ne_nil _))
  rw [exponentText, withSign, String.toList_ofList, unpadded]
  by_cases negative : exponent < 0
  · rw [if_pos negative, decide_eq_true negative]
    rfl
  · rw [if_neg negative, decide_eq_false negative]
    rfl

/-- The exponent is read as it is written. -/
theorem readExponent_exponentText {exponent : Int} (low : -2 ^ 31 < exponent)
    (high : exponent < 2 ^ 31) : readExponent (listing.exponentText exponent) = exponent := by
  have digit := Decimal.head_text (Decimal.digits_ne_nil exponent.natAbs) []
  rw [List.append_nil] at digit
  have read : Decimal.value? (Decimal.text (Decimal.digits exponent.natAbs))
      = some exponent.natAbs := by
    rw [Decimal.value?_text (Decimal.digits_ne_nil _), Decimal.value_digits]
  rw [readExponent, exponentText_listing, splitSign_withSign digit]
  have value : (if exponent < 0 then -(exponent.natAbs : Int) else exponent.natAbs) = exponent := by
    split <;> omega
  simp only [read, decide_eq_true_eq, value]
  exact if_pos ⟨Int.le_of_lt low, high⟩

/-! ## The layouts -/

theorem text_append (digits more : List Digit) :
    Decimal.text (digits ++ more) = Decimal.text digits ++ Decimal.text more := List.map_append

theorem text_zeros (count : Nat) : Decimal.text (zeros count) = List.replicate count '0' :=
  List.map_replicate

theorem exponentText_value (exponent : Int) :
    value.exponentText exponent = (if exponent < 0 then '-' else '+') ::
      Decimal.text (zeros (2 - (Decimal.digits exponent.natAbs).length)
        ++ Decimal.digits exponent.natAbs) := by
  rw [exponentText]
  split
  · rfl
  · rfl

theorem scientific_value (s : Scientific) :
    value.scientific s = pointed [s.lead] s.rest ++ 'e' :: value.exponentText s.exponent := by
  have always : (s.rest.isEmpty && !value.pointAlways) = false := Bool.and_false _
  rw [scientific, always, if_neg Bool.false_ne_true]

/-- Zeros stand behind the point if the exponent is negative. -/
theorem positional_of_neg (negative : s.exponent < 0) :
    positional s
      = '0' :: '.' :: (List.replicate (s.exponent.natAbs - 1) '0' ++ Decimal.text s.digits) := by
  have digits : (zeros (s.exponent.natAbs - 1) ++ s.digits).isEmpty = false := by
    simp [Scientific.digits]
  rw [positional, if_pos negative, pointed, digits, if_neg Bool.false_ne_true, text_append,
    text_zeros]
  rfl

variable (positive : ¬ s.exponent < 0)

include positive

/-- Zeros stand in front of the point as far as digits are missing there. -/
theorem positional_of_short (short : s.digits.length ≤ s.exponent.toNat + 1) :
    positional s = Decimal.text s.digits
      ++ List.replicate (s.exponent.toNat + 1 - s.digits.length) '0' ++ ['.', '0'] := by
  have digits (more : List Digit) : (s.digits ++ more).isEmpty = false := rfl
  rw [positional, if_neg positive]
  simp only [List.take_of_length_le short, List.drop_of_length_le short]
  rw [pointed, digits, if_neg Bool.false_ne_true, text_append, text_zeros]
  rfl

/-- The point stands between digits if there are enough. -/
theorem positional_of_long (long : s.exponent.toNat + 1 < s.digits.length) :
    positional s = Decimal.text (s.digits.take (s.exponent.toNat + 1))
      ++ '.' :: Decimal.text (s.digits.drop (s.exponent.toNat + 1)) := by
  have missing : zeros (s.exponent.toNat + 1 - s.digits.length) = [] := by
    rw [Nat.sub_eq_zero_of_le (Nat.le_of_lt long)]
    rfl
  have whole : (s.digits.take (s.exponent.toNat + 1)).isEmpty = false := rfl
  have part : (s.digits.drop (s.exponent.toNat + 1)).isEmpty = false := by simpa using long
  rw [positional, if_neg positive]
  simp only [missing, List.append_nil]
  rw [pointed, whole, part, if_neg Bool.false_ne_true, if_neg Bool.false_ne_true]

omit positive

/-- A number whose exponent has 32 bits is laid out within all domains. -/
theorem decimal?_eq (low : -2 ^ 31 < s.exponent) (high : s.exponent < 2 ^ 31) :
    decimal? (listing.scientific s) = some (value.decimal s) := by
  obtain ⟨mantissa, printed, noExponent, digits, filled⟩ := exists_mantissa s
  have inFront : ∀ c ∈ mantissa, decide (c ≠ 'e') = true := fun c mem =>
    decide_eq_true (noExponent c mem)
  have front : (listing.scientific s).takeWhile (· ≠ 'e') = mantissa := by
    rw [printed, List.takeWhile_append_of_pos inFront]
    simp
  have back : ((listing.scientific s).dropWhile (· ≠ 'e')).drop 1
      = listing.exponentText s.exponent := by
    rw [printed, List.dropWhile_append_of_pos inFront]
    simp
  have length : byteLength (Decimal.text s.digits) = s.digits.length := byteLength_text _
  unfold decimal? decimal
  simp only [front, back, readExponent_exponentText low high, digits, filled, length]
  split
  · rw [magnitude?, if_pos low, Option.map_some, scientific_value, exponentText_value]
  · split
    · rename_i negative
      have count : 0 ≤ -s.exponent - 1 := by omega
      have same : (-s.exponent - 1).toNat = s.exponent.natAbs - 1 := by omega
      rw [zeros?, if_pos count, Option.map_some, same, positional_of_neg negative]
    · rename_i positive
      split
      · rename_i short
        rw [minus?_of_le short, Option.map_some, positional_of_short positive short]
      · rename_i long
        have within := Nat.lt_of_not_le long
        have cut := splitBytes?_append (Decimal.text (s.digits.take (s.exponent.toNat + 1)))
          (Decimal.text (s.digits.drop (s.exponent.toNat + 1)))
        rw [byteLength_text, List.length_take_of_le (Nat.le_of_lt within), ← text_append,
          List.take_append_drop] at cut
        rw [cut, Option.map_some, positional_of_long positive within]

end FloatLayout

/-! ## Finite numbers -/

/-- A decimal lies between the powers of ten at its exponent. -/
theorem Scientific.power_bounds {n : Nat} (nonzero : n ≠ 0) (exponent : Int) :
    (10 : ℚ) ^ (ofNat n exponent).exponent ≤ (ofNat n exponent).value ∧
      (ofNat n exponent).value < 10 ^ ((ofNat n exponent).exponent + 1) := by
  obtain ⟨lead, rest, count, digits, e⟩ := exists_ofNat nonzero exponent
  have length : (Decimal.reversedDigits n).length = rest.length + 1 + count := by
    have same := congrArg List.length digits
    rwa [Decimal.digits, List.length_reverse, List.length_append, List.length_cons,
      List.length_replicate] at same
  have low : (ofNat n exponent).exponent = exponent + (Decimal.reversedDigits n).length - 1 := by
    rw [e, length]
    push_cast
    ring
  rw [value_ofNat nonzero, low, Int.sub_add_cancel]
  exact Decimal.power_bounds nonzero exponent

namespace Binary64

variable {x : Binary64}

theorem shortest_cases (x : Binary64) :
    x.shortest.exponent = 0 ∨ x.magnitude ≠ 0 ∧ ∃ n ≠ 0, ∃ unit, x.shortest = .ofNat n unit := by
  rw [shortest]
  split
  · exact .inl rfl
  · rename_i nonzero
    dsimp only
    generalize (RoundingInterval.of x).search _ = taken
    by_cases none : taken.1 = 0
    · refine .inl ?_
      rw [none]
      simp [Scientific.ofNat, Decimal.reversedDigits, Digit.zero]
    · exact .inr ⟨fun zero => nonzero (decide_eq_true zero), taken.1, none, _, rfl⟩

/-- The leading digit of a finite number has some three hundred places on either side. -/
theorem exponent_shortest (finite : x.magnitude < infinityBits) :
    -330 ≤ x.shortest.exponent ∧ x.shortest.exponent ≤ 308 := by
  rcases x.shortest_cases with zero | ⟨nonzero, n, some, unit, e⟩
  · rw [zero]
    decide
  · obtain ⟨low, high⟩ := Scientific.power_bounds some unit
    rw [← e] at low high
    have ten : (1 : ℚ) < 10 := by norm_num
    have below := (zpow_lt_zpow_iff_right₀ ten).mp
      (low.trans_lt (x.holds_shortest.lt_ten_pow finite))
    have above : (10 : ℚ) ^ (-329 : Int) ≤ x.shortest.value :=
      not_lt.mp fun tiny => nonzero (x.holds_shortest.magnitude_eq_zero tiny)
    have above := (zpow_lt_zpow_iff_right₀ ten).mp (above.trans_lt high)
    omega

end Binary64

/-- Writing a number leaves no domain. -/
theorem FloatLayout.write?_eq (x : Binary64) : write? x = some (FloatLayout.value.write x) := by
  unfold write? write
  split
  · rfl
  · rename_i number
    dsimp only
    split
    · rfl
    · rename_i finite
      have bounds := x.exponent_shortest
        (x.magnitude_lt (Bool.eq_false_of_not_eq_true number) (Bool.eq_false_of_not_eq_true finite))
      rw [decimal?_eq (by omega) (by omega), Option.map_some]

/-! ## Values -/

namespace Value

mutual

/-- The text of a value, within all domains. -/
def text? : Value → Option String
  | float x => FloatLayout.write? x
  | sexp tag children =>
    (childrenText? children).map fun inside => "s(" ++ tag.text ++ inside ++ ")"
  | value => some value.text

def childrenText? : List Value → Option String
  | [] => some ""
  | child :: rest =>
    (text? child).bind fun first =>
      (childrenText? rest).map fun others => ", " ++ first ++ others

end

mutual

/-- No value leaves a domain when it is written. -/
theorem text?_eq : (value : Value) → value.text? = some value.text
  | float x => FloatLayout.write?_eq x
  | sexp tag children => by
      rw [text?, childrenText?_eq children, Option.map_some, text]
  | nil | bool _ | int _ | str _ | sym _ => rfl

theorem childrenText?_eq : (values : List Value) → childrenText? values = some (childrenText values)
  | [] => rfl
  | child :: rest => by
      rw [childrenText?, text?_eq child, Option.bind_some, childrenText?_eq rest, Option.map_some,
        childrenText]

end

end Value

end RubyReader
