/-
# `Quoted` — the value form of a text can be read back

In the value form a quote inside a text stands behind a backslash, so the first one that
does not ends the text; and what a backslash stands for is told by what follows it.  An
escaped `#` is the only character that has two forms, and both are read as it.

    unescape  (valueBody chars  "  rest)  =  chars, rest
-/
import RubyReader.Text.Quoted
import Mathlib.Tactic.SplitIfs

namespace RubyReader.Text

/-! ## Hexadecimal digits

Control characters are written with four digits, which are enough for them. -/

def hexValue (c : Char) : Nat := if c.toNat < 58 then c.toNat - 48 else c.toNat - 55

theorem hexValue_hexDigit : ∀ n < 16, hexValue (hexDigit n) = n := by decide

theorem isControl_hexDigit : ∀ n < 16, isControl (hexDigit n) = false := by decide

def ofHex4 (a b c d : Char) : Nat :=
  4096 * hexValue a + 256 * hexValue b + 16 * hexValue c + hexValue d

theorem ofHex4_hex4 {n : Nat} (small : n < 65536) :
    ofHex4 (hexDigit (n / 4096 % 16)) (hexDigit (n / 256 % 16)) (hexDigit (n / 16 % 16))
      (hexDigit (n % 16)) = n := by
  have digit (k : Nat) : hexValue (hexDigit (k % 16)) = k % 16 :=
    hexValue_hexDigit _ (Nat.mod_lt k (by decide))
  rw [ofHex4, digit, digit, digit, digit]
  omega

theorem lt_of_isControl {c : Char} (h : isControl c = true) : c.toNat < 65536 := by
  simp only [isControl, Bool.or_eq_true, Bool.and_eq_true, decide_eq_true_eq] at h
  omega

/-! ## Reading the value form -/

/-- The character that a letter behind a backslash stands for. -/
def unletter : Char → Char
  | 'n' => '\n'
  | 't' => '\t'
  | 'r' => '\r'
  | 'f' => '\x0c'
  | 'v' => '\x0b'
  | 'b' => '\x08'
  | 'a' => '\x07'
  | 'e' => '\x1b'
  | c => c

/-- Reads the value form up to its closing quote: the text, and what stands behind it. -/
def readValueBody : List Char → List Char × List Char
  | [] => ([], [])
  | '"' :: rest => ([], rest)
  | '\\' :: 'u' :: a :: b :: c :: d :: rest =>
    (Char.ofNat (ofHex4 a b c d) :: (readValueBody rest).1, (readValueBody rest).2)
  | '\\' :: letter :: rest => (unletter letter :: (readValueBody rest).1, (readValueBody rest).2)
  | c :: rest => (c :: (readValueBody rest).1, (readValueBody rest).2)

/-! ## Single characters -/

theorem unletter_of_sharedEscape {c letter : Char} (h : sharedEscape? c = some letter) :
    letter ≠ 'u' ∧ unletter letter = c ∧ isControl letter = false := by
  unfold sharedEscape? at h
  split at h <;> cases h <;> decide

theorem unletter_of_valueEscape {c letter : Char} (h : valueEscape? c = some letter) :
    letter ≠ 'u' ∧ unletter letter = c ∧ isControl letter = false := by
  unfold valueEscape? at h
  split at h
  · rename_i shared
    cases h
    exact unletter_of_sharedEscape shared
  · split_ifs at h with same same same same same <;> cases h <;> cases same <;> decide

theorem valueChar_cases (c : Char) (rest : List Char) :
    (∃ letter, valueChar c rest = ['\\', letter] ∧ letter ≠ 'u' ∧ unletter letter = c ∧
        isControl letter = false) ∨
      (valueChar c rest = '\\' :: 'u' :: hex4 c.toNat ∧ isControl c = true) ∨
      (valueChar c rest = [c] ∧ c ≠ '"' ∧ c ≠ '\\' ∧ isControl c = false) := by
  unfold valueChar
  split
  · rename_i letter escaped
    exact .inl ⟨letter, rfl, unletter_of_valueEscape escaped⟩
  · rename_i unescaped
    split
    · rename_i opens
      obtain ⟨rfl, -⟩ : c = '#' ∧ _ := by simpa using opens
      exact .inl ⟨'#', rfl, by decide⟩
    · split
      · rename_i control
        exact .inr (.inl ⟨rfl, control⟩)
      · rename_i shown
        refine .inr (.inr ⟨rfl, ?_, ?_, by simpa using shown⟩)
        · rintro rfl
          cases unescaped
        · rintro rfl
          cases unescaped

/-! ## Whole texts -/

theorem readValueBody_letter {letter : Char} (h : letter ≠ 'u') (rest : List Char) :
    readValueBody ('\\' :: letter :: rest)
      = (unletter letter :: (readValueBody rest).1, (readValueBody rest).2) := by
  rw [readValueBody]
  exact fun _ _ _ _ _ e => absurd e h

theorem readValueBody_plain {c : Char} (noQuote : c ≠ '"') (noEscape : c ≠ '\\')
    (rest : List Char) :
    readValueBody (c :: rest) = (c :: (readValueBody rest).1, (readValueBody rest).2) := by
  rw [readValueBody]
  · exact noQuote
  · exact fun _ _ _ _ _ e => absurd e noEscape
  · exact fun _ _ e => absurd e noEscape

/-- Each character is read from its own form. -/
theorem readValueBody_valueChar (c : Char) (cs rest : List Char) :
    readValueBody (valueChar c cs ++ rest)
      = (c :: (readValueBody rest).1, (readValueBody rest).2) := by
  rcases valueChar_cases c cs with ⟨letter, form, noNumber, rfl, _⟩ | ⟨form, control⟩ |
    ⟨form, noQuote, noEscape, _⟩
  · rw [form]
    exact readValueBody_letter noNumber rest
  · rw [form, hex4]
    show (Char.ofNat (ofHex4 _ _ _ _) :: (readValueBody rest).1, (readValueBody rest).2) = _
    rw [ofHex4_hex4 (lt_of_isControl control), Char.ofNat_toNat]
  · rw [form]
    exact readValueBody_plain noQuote noEscape rest

/-- The value form ends with its closing quote. -/
theorem readValueBody_valueBody (chars rest : List Char) :
    readValueBody (valueBody chars ++ '"' :: rest) = (chars, rest) := by
  induction chars with
  | nil => rfl
  | cons c cs ih => rw [valueBody, List.append_assoc, readValueBody_valueChar, ih]

theorem isControl_of_mem_valueChar {c : Char} {rest : List Char} {shown : Char}
    (mem : shown ∈ valueChar c rest) : isControl shown = false := by
  rcases valueChar_cases c rest with ⟨letter, form, _, _, visible⟩ | ⟨form, _⟩ |
    ⟨form, _, _, visible⟩
  · rw [form] at mem
    simp only [List.mem_cons, List.not_mem_nil, or_false] at mem
    rcases mem with rfl | rfl
    · decide
    · exact visible
  · have digit (n : Nat) : isControl (hexDigit (n % 16)) = false :=
      isControl_hexDigit _ (Nat.mod_lt n (by decide))
    rw [form, hex4] at mem
    simp only [List.mem_cons, List.not_mem_nil, or_false] at mem
    rcases mem with rfl | rfl | rfl | rfl | rfl | rfl
    · decide
    · decide
    all_goals exact digit _
  · rw [form] at mem
    rwa [List.mem_singleton.mp mem]

/-- No control character is written as it is. -/
theorem isControl_of_mem_valueBody {chars : List Char} {c : Char} (mem : c ∈ valueBody chars) :
    isControl c = false := by
  induction chars with
  | nil => cases mem
  | cons first rest ih =>
      rw [valueBody, List.mem_append] at mem
      exact mem.elim isControl_of_mem_valueChar ih

end RubyReader.Text
