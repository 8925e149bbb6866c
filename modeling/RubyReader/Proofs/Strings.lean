/-
# `Strings` — a printed string is read as one string

The value form of a text has escapes of its own, but it ends where its string ends: no quote
is written without a backslash, and no line end behind one.  So it is one lexeme, whatever
the text holds.  What is read from it differs where a letter behind a backslash stands for
itself:

    written   \" \\ \n \t \#     \r \f \v \b \a \e   \uXXXX
    read      the character      the letter          u and the digits

Nothing that is read instead of a control character is one, so a text comes back if and only
if no control character is in it but line ends and tabs (`lex_text_str`).
-/
import Mathlib
import RubyReader.Proofs.Text.Quoted
import RubyReader.Proofs.Token.Boundaries
import RubyReader.Value.Display

namespace RubyReader

open Lexer Text

/-! ## Characters -/

/-- What the form of a character is read as. -/
def readBack (c : Char) : List Char :=
  match valueEscape? c with
  | some letter => [unescape.escaped letter]
  | none => if isControl c then 'u' :: hex4 c.toNat else [c]

/-- Control characters that the form keeps, and all other characters. -/
def IsKept (c : Char) : Prop := isControl c = true → c = '\n' ∨ c = '\t'

theorem hexDigit_plain : ∀ n < 16, hexDigit n ≠ '\\' ∧ hexDigit n ≠ '"' := by decide

theorem hex4_plain (n : Nat) : ∀ c ∈ hex4 n, (c ≠ '\\' ∧ c ≠ '"') ∧ isControl c = false := by
  have digit (k : Nat) : (hexDigit (k % 16) ≠ '\\' ∧ hexDigit (k % 16) ≠ '"') ∧
      isControl (hexDigit (k % 16)) = false :=
    have small : k % 16 < 16 := Nat.mod_lt k (by decide)
    ⟨hexDigit_plain _ small, isControl_hexDigit _ small⟩
  intro c mem
  simp only [hex4, List.mem_cons, List.not_mem_nil, or_false] at mem
  rcases mem with rfl | rfl | rfl | rfl <;> exact digit _

theorem escaped_of_valueEscape {c letter : Char} (h : valueEscape? c = some letter) :
    unescape.escaped letter = c ∧ IsKept c ∨
      isControl (unescape.escaped letter) = false ∧ ¬ IsKept c := by
  unfold valueEscape? at h
  split at h
  · rename_i shared
    obtain rfl := Option.some.inj h
    unfold sharedEscape? at shared
    split at shared <;> cases shared <;> unfold IsKept <;> decide
  · split_ifs at h with same same same same same <;> cases h <;> cases same <;> unfold IsKept <;>
      decide

/-- A character is read back as it is, or as characters that show. -/
theorem readBack_cases (c : Char) :
    readBack c = [c] ∧ IsKept c ∨
      (∀ shown ∈ readBack c, isControl shown = false) ∧ isControl c = true ∧ ¬ IsKept c := by
  unfold readBack
  split
  · rename_i letter escapes
    rcases escaped_of_valueEscape escapes with ⟨same, kept⟩ | ⟨shows, lost⟩
    · exact .inl ⟨by rw [same], kept⟩
    · refine .inr ⟨fun shown mem => by rwa [List.mem_singleton.mp mem], ?_, lost⟩
      by_contra visible
      exact lost fun control => absurd control visible
  · rename_i noEscape
    split
    · rename_i control
      refine .inr ⟨fun shown mem => ?_, control, fun kept => ?_⟩
      · rcases List.mem_cons.mp mem with rfl | mem
        · decide
        · exact (hex4_plain _ shown mem).2
      · rcases kept control with rfl | rfl <;> cases noEscape
    · rename_i visible
      exact .inl ⟨rfl, fun control => absurd control visible⟩

/-! ## Resolving escapes

The value form is read back character by character, each as `readBack` says. -/

theorem unescape_append {chars : List Char} (plain : ∀ c ∈ chars, c ≠ '\\') (more : List Char) :
    unescape (chars ++ more) = chars ++ unescape more := by
  induction chars with
  | nil => rfl
  | cons c chars ih =>
      obtain ⟨noBackslash, plain⟩ := List.forall_mem_cons.mp plain
      rw [List.cons_append, unescape, ih plain, List.cons_append]
      rintro _ _ rfl
      exact absurd rfl noBackslash

theorem unescape_valueChar (c : Char) (rest more : List Char) :
    unescape (valueChar c rest ++ more) = readBack c ++ unescape more := by
  unfold valueChar readBack
  cases escapes : valueEscape? c with
  | some letter => rfl
  | none =>
      simp only
      split
      · rename_i opens
        obtain ⟨rfl, -⟩ : c = '#' ∧ _ := by simpa using opens
        rfl
      · split
        · show 'u' :: unescape (hex4 c.toNat ++ more) = _
          rw [unescape_append fun d mem => (hex4_plain _ d mem).1.1]
          rfl
        · refine unescape_append (fun d mem => ?_) more
          rw [List.mem_singleton.mp mem]
          rintro rfl
          cases escapes

theorem unescape_valueBody (chars : List Char) :
    unescape (valueBody chars) = chars.flatMap readBack := by
  induction chars with
  | nil => rfl
  | cons c chars ih => rw [valueBody, unescape_valueChar, ih, List.flatMap_cons]

/-! ## Finding the end -/

theorem doubleQuotedTail_plain {chars : List Char} (plain : ∀ c ∈ chars, c ≠ '\\' ∧ c ≠ '"')
    (more : List Char) : doubleQuotedTail (chars ++ more)
      = ((doubleQuotedTail more).1, (doubleQuotedTail more).2 + chars.length) := by
  induction chars with
  | nil => rfl
  | cons c chars ih =>
      obtain ⟨⟨noBackslash, noQuote⟩, plain⟩ := List.forall_mem_cons.mp plain
      rw [List.cons_append, doubleQuotedTail_cons noQuote noBackslash, ih plain, List.length_cons,
        Nat.add_assoc]

theorem doubleQuotedTail_valueChar (c : Char) (rest more : List Char) :
    doubleQuotedTail (valueChar c rest ++ more)
      = ((doubleQuotedTail more).1, (doubleQuotedTail more).2 + (valueChar c rest).length) := by
  rcases valueChar_cases c rest with ⟨letter, form, -, -, shows⟩ | ⟨form, -⟩ |
    ⟨form, noQuote, noBackslash, -⟩
  · have noNewline : letter ≠ '\n' := by
      rintro rfl
      cases shows
    rw [form]
    exact doubleQuotedTail_escape noNewline more
  · rw [form, List.cons_append, List.cons_append, doubleQuotedTail_escape (by decide),
      doubleQuotedTail_plain fun d mem => (hex4_plain _ d mem).1]
    rfl
  · rw [form]
    exact doubleQuotedTail_cons noQuote noBackslash more

theorem doubleQuotedTail_valueBody (chars : List Char) :
    doubleQuotedTail (valueBody chars ++ ['"'])
      = (.token .string, (valueBody chars).length + 1) := by
  induction chars with
  | nil => rfl
  | cons c chars ih =>
      rw [valueBody, List.append_assoc, doubleQuotedTail_valueChar, ih, List.length_append]
      simp only [Prod.mk.injEq, true_and]
      omega

/-! ## Whole texts -/

def valueLexeme (chars : List Char) : Lexeme := ⟨.token .string, '"', valueBody chars ++ ['"']⟩

/-- The value form of a text is one lexeme. -/
theorem lexemes_quoteValue (text : String) :
    lexemes (quoteValue text).toList = [valueLexeme text.toList] := by
  have alone : Alone (valueLexeme text.toList) := by
    show doubleQuotedTail (valueBody text.toList ++ ['"']) = (.token .string, _)
    rw [doubleQuotedTail_valueBody, valueLexeme, List.length_append]
    rfl
  have all := alone.lexemes_append rfl .nil
  rw [List.append_nil, lexemes_nil] at all
  rwa [quoteValue, String.toList_ofList]

theorem content_valueLexeme (chars : List Char) :
    content .string (valueLexeme chars) = String.ofList (chars.flatMap readBack) := by
  simp [content, valueLexeme, unescape_valueBody]

/-- All characters come back if and only if all are kept. -/
theorem flatMap_readBack_eq_iff (chars : List Char) :
    chars.flatMap readBack = chars ↔ ∀ c ∈ chars, IsKept c := by
  constructor
  · intro same c mem
    by_contra lost
    obtain ⟨d, among, shown⟩ := List.mem_flatMap.mp (same.symm ▸ mem : c ∈ chars.flatMap readBack)
    rcases readBack_cases d with ⟨form, kept⟩ | ⟨shows, -, -⟩
    · rw [form, List.mem_singleton] at shown
      exact lost (shown ▸ kept)
    · exact lost fun control => absurd control (by simp [shows c shown])
  · intro kept
    induction chars with
    | nil => rfl
    | cons c chars ih =>
        obtain ⟨here, kept⟩ := List.forall_mem_cons.mp kept
        rcases readBack_cases c with ⟨form, -⟩ | ⟨-, -, lost⟩
        · rw [List.flatMap_cons, form, ih kept, List.singleton_append]
        · exact absurd here lost

/-- The text of a string value is read without an error as one string token, in front of the
end of the input.  It holds the string again if and only if each control character of it is a
line end or a tab. -/
theorem lex_text_str (text : String) :
    (lex (Value.str text).text).report = .empty ∧
      ∃ token position, (lex (Value.str text).text).tokens = [token, .endOfInput position] ∧
        token.kind = .string ∧
        (token.literal = text ↔
          ∀ c ∈ text.toList, isControl c = true → c = '\n' ∨ c = '\t') := by
  have lexemes := lexemes_quoteValue text
  refine ⟨?_, .new .string (content .string (valueLexeme text.toList)) .start,
    Position.start.after (quoteValue text).toList, ?_, rfl, ?_⟩
  · have errors := lex_errors_eq (quoteValue text)
    rw [lexemes] at errors
    exact congrArg Report.mk errors
  · have tokens := lex_tokens_eq (quoteValue text)
    rw [lexemes] at tokens
    exact tokens
  · show content .string (valueLexeme text.toList) = text ↔ _
    rw [content_valueLexeme, ← String.toList_inj, String.toList_ofList, flatMap_readBack_eq_iff]
    rfl

example : (lex (Value.str "a\"\\\n\t#\x7b\r\x01").text).tokens.map Token.literal
    = ["a\"\\\n\t#\x7bru0001", ""] := by
  cbv

end RubyReader
