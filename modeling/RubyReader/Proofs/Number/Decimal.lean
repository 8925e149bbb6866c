/-
# `Decimal` — digits are read back

The digits of a number have its value, and their text is read as that value again.
Zeros in front change nothing.  A number has one digit more than its decimal
logarithm, so its digits tell how large it is.
-/
import RubyReader.Number.Reading
import Mathlib.Data.Nat.Log

namespace RubyReader

/-! ## Single digits -/

namespace Digit

theorem ofChar?_char (digit : Digit) : ofChar? digit.char = some digit := by
  revert digit
  decide

theorem isDigit_char (digit : Digit) : digit.char.isDigit = true := by
  revert digit
  decide

theorem toLower_char (digit : Digit) : digit.char.toLower = digit.char := by
  revert digit
  decide

theorem exists_char {c : Char} (h : c.isDigit = true) : ∃ digit : Digit, digit.char = c := by
  rw [Char.isDigit] at h
  simp only [Bool.and_eq_true, decide_eq_true_eq, ge_iff_le, UInt32.le_iff_toNat_le] at h
  have low : 48 ≤ c.toNat := h.1
  have high : c.toNat ≤ 57 := h.2
  refine ⟨⟨c.toNat - 48, by omega⟩, ?_⟩
  rw [Digit.char, Nat.add_sub_cancel' low, Char.ofNat_toNat]

end Digit

namespace Decimal

/-! ## Values -/

@[simp] theorem value_nil : value [] = 0 := rfl

theorem value_append_digit (digits : List Digit) (digit : Digit) :
    value (digits ++ [digit]) = 10 * value digits + digit.val := by
  rw [value, List.foldl_append, List.foldl_cons, List.foldl_nil, value]

theorem value_reverse_reversedDigits (n : Nat) : value (reversedDigits n).reverse = n := by
  fun_induction reversedDigits n with
  | case1 n small =>
      show 10 * 0 + n % 10 = n
      omega
  | case2 n large ih =>
      rw [List.reverse_cons, value_append_digit, ih]
      show 10 * (n / 10) + n % 10 = n
      omega

@[simp] theorem value_digits (n : Nat) : value (digits n) = n := value_reverse_reversedDigits n

theorem value_zeros_append (count : Nat) (digits : List Digit) :
    value (List.replicate count .zero ++ digits) = value digits := by
  have zeros : (List.replicate count Digit.zero).foldl (fun n d => 10 * n + d.val) 0 = 0 := by
    induction count with
    | zero => rfl
    | succ count ih => exact ih
  rw [value, List.foldl_append, zeros, value]

/-! ## Lengths -/

theorem length_reversedDigits (n : Nat) : (reversedDigits n).length = Nat.log 10 n + 1 := by
  fun_induction reversedDigits n with
  | case1 n small => rw [List.length_singleton, Nat.log_of_lt small]
  | case2 n large ih =>
      rw [List.length_cons, ih, Nat.log_div_base, Nat.sub_add_cancel]
      exact Nat.log_pos (by decide) (Nat.not_lt.mp large)

theorem length_digits (n : Nat) : (digits n).length = Nat.log 10 n + 1 := by
  rw [digits, List.length_reverse, length_reversedDigits]

/-! ## Texts -/

theorem digits?_text (digits : List Digit) : digits? (text digits) = some digits := by
  induction digits with
  | nil => rfl
  | cons digit rest ih =>
      rw [digits?, text, List.map_cons, List.mapM_cons, Digit.ofChar?_char]
      rw [digits?, text] at ih
      rw [ih]
      rfl

/-- The text of some digits is read as their value. -/
theorem value?_text {digits : List Digit} (nonempty : digits ≠ []) :
    value? (text digits) = some (value digits) := by
  cases digits with
  | nil => exact absurd rfl nonempty
  | cons digit rest =>
      show (digits? (text (digit :: rest))).map value = _
      rw [digits?_text, Option.map_some]

theorem isDigit_of_mem_text {digits : List Digit} {c : Char} (mem : c ∈ text digits) :
    c.isDigit = true := by
  obtain ⟨digit, -, rfl⟩ := List.mem_map.mp mem
  exact digit.isDigit_char

theorem takeWhile_text (digits : List Digit) {rest : List Char}
    (ends : ∀ c ∈ rest.head?, c.isDigit = false) :
    (text digits ++ rest).takeWhile Char.isDigit = text digits := by
  rw [List.takeWhile_append_of_pos fun _ => isDigit_of_mem_text]
  cases rest with
  | nil => simp
  | cons c rest => simp [ends c rfl]

theorem dropWhile_text (digits : List Digit) {rest : List Char}
    (ends : ∀ c ∈ rest.head?, c.isDigit = false) :
    (text digits ++ rest).dropWhile Char.isDigit = rest := by
  rw [List.dropWhile_append_of_pos fun _ => isDigit_of_mem_text]
  cases rest with
  | nil => rfl
  | cons c rest => simp [ends c rfl]

end Decimal

/-! ## Signs -/

def withSign (negative : Bool) (chars : List Char) : String :=
  String.ofList (if negative then '-' :: chars else chars)

theorem splitSign_of_digit {c : Char} (isDigit : c.isDigit = true) (rest : List Char) :
    splitSign (c :: rest) = (false, c :: rest) := by
  unfold splitSign
  split
  · rename_i e
    obtain ⟨rfl, -⟩ := List.cons.inj e
    cases isDigit
  · rename_i e
    obtain ⟨rfl, -⟩ := List.cons.inj e
    cases isDigit
  · rfl

theorem splitSign_withSign {negative : Bool} {chars : List Char}
    (digit : ∃ c ∈ chars.head?, c.isDigit = true) :
    splitSign (withSign negative chars).toList = (negative, chars) := by
  rw [withSign, String.toList_ofList]
  cases negative with
  | true => rfl
  | false =>
      obtain ⟨c, head, isDigit⟩ := digit
      cases chars with
      | nil => cases head
      | cons first rest =>
          obtain rfl := Option.some.inj head
          exact splitSign_of_digit isDigit rest

theorem Decimal.head_text {digits : List Digit} (nonempty : digits ≠ []) (rest : List Char) :
    ∃ c ∈ (text digits ++ rest).head?, c.isDigit = true := by
  cases digits with
  | nil => exact absurd rfl nonempty
  | cons digit more => exact ⟨digit.char, rfl, digit.isDigit_char⟩

theorem Decimal.digits_ne_nil (n : Nat) : digits n ≠ [] := by
  intro e
  have length := length_digits n
  rw [e] at length
  cases length

/-- The digits that core writes. -/
theorem Decimal.toDigits_eq (n : Nat) : Nat.toDigits 10 n = text (digits n) := by
  have digitChar (n : Nat) : (n % 10).digitChar = Digit.char (Fin.ofNat 10 n) := by
    have each : ∀ m < 10, Nat.digitChar m = Digit.char (Fin.ofNat 10 m) := by decide
    rw [each _ (Nat.mod_lt n (by decide)), Digit.char, Digit.char, Fin.val_ofNat, Fin.val_ofNat,
      Nat.mod_mod]
  unfold digits
  fun_induction reversedDigits n with
  | case1 n small =>
      have last := digitChar n
      rw [Nat.mod_eq_of_lt small] at last
      rw [Nat.toDigits_of_lt_base small, last]
      rfl
  | case2 n large ih =>
      rw [Nat.toDigits_of_base_le (by decide) (Nat.not_lt.mp large), ih, digitChar,
        List.reverse_cons, text, text, List.map_append]
      rfl

/-! ## Integers -/

/-- Integers are written as core writes them: their digits, with their sign. -/
theorem toString_int (n : Int) :
    toString n = withSign (n < 0) (Decimal.text (Decimal.digits n.natAbs)) := by
  rw [withSign, ← Decimal.toDigits_eq]
  cases n with
  | ofNat m => rfl
  | negSucc m =>
      rw [if_pos (decide_eq_true (Int.negSucc_lt_zero m))]
      exact String.toList_inj.mp (by simp [toString, Int.repr, Nat.repr])

def integerText (n : Int64) : String :=
  withSign (n.toInt < 0) (Decimal.text (Decimal.digits n.toInt.natAbs))

theorem toString_toInt (n : Int64) : toString n.toInt = integerText n := toString_int n.toInt

/-- An integer of 64 bits is read back. -/
theorem readInteger?_integerText (n : Int64) : readInteger? (integerText n) = some n := by
  have head := Decimal.head_text (Decimal.digits_ne_nil n.toInt.natAbs) []
  rw [List.append_nil] at head
  have low := Int64.minValue_le_toInt n
  have high := Int64.toInt_le n
  rw [readInteger?, integerText, splitSign_withSign head]
  dsimp only
  rw [Decimal.value?_text (Decimal.digits_ne_nil _), Decimal.value_digits]
  have value : (if decide (n.toInt < 0) = true then -(n.toInt.natAbs : Int) else n.toInt.natAbs)
      = n.toInt := by
    by_cases negative : n.toInt < 0
    · rw [if_pos (by simpa using negative)]
      omega
    · rw [if_neg (by simpa using negative)]
      omega
  simp only [value]
  rw [if_pos (Bool.and_eq_true_iff.mpr ⟨decide_eq_true low, decide_eq_true high⟩),
    Int64.ofInt_toInt]

end RubyReader
