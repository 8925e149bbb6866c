/-
# `Display` — the text of a value tells what the value is

The first character of a text tells what kind of text it is:

    s     a tagged list, which ends with the parenthesis that closes it
    "     a string, which ends with the quote that closes it
    else  a leaf, which ends in front of the next `,` or `)`

No leaf holds a `,` or `)` if the names of symbols do not, and what it is can be read from
it (`ofLeaf`).  So two values whose texts begin some text, each in front of nothing, a `,`
or a `)`, are equal, and so are the rests of that text (`canonical_eq_of_append`); all that
the text does not tell is which bits stand for no number.

Strings are written without control characters, and nothing else has any; so a text is a
single line.
-/
import Mathlib
import RubyReader.Proofs.Number.Layout
import RubyReader.Proofs.Text.Quoted
import RubyReader.Proofs.Token.Boundaries
import RubyReader.Value.Display

namespace RubyReader

open Text (isControl)

/-! ## What a text can tell -/

/-- A number, where all bits that stand for no number are the same. -/
def Binary64.canonical (x : Binary64) : Binary64 :=
  if x.isNaN then .ofMagnitude false (infinityBits + Nat.pow 2 51) else x

/-- The name of a symbol: letters, digits and underscores, perhaps with a `?` or `!` behind
them, or an operator. -/
def IsSymbolName (name : String) : Prop :=
  Lexer.wordTail name.toList = name.toList.length ∨
    ∃ kind : TokenKind, kind.operator? = some name

namespace Value

/-- All symbols of a value, tags included, have names that symbols can have. -/
def Named (u : Value) : Prop := ∀ name ∈ u.symbolNames, IsSymbolName name

def AllNamed (us : List Value) : Prop := ∀ name ∈ allSymbolNames us, IsSymbolName name

mutual

/-- A value in which all bits that stand for no number are the same. -/
def canonical : Value → Value
  | float x => float x.canonical
  | sexp tag children => sexp tag (allCanonical children)
  | value => value

def allCanonical : List Value → List Value
  | [] => []
  | value :: rest => canonical value :: allCanonical rest

end

end Value

/-! ## Characters of leaves -/

/-- A character that ends no leaf and shows. -/
def isPlain (c : Char) : Bool := c ≠ ',' && c ≠ ')' && !isControl c

theorem isControl_of_isPlain {c : Char} (h : isPlain c = true) : isControl c = false := by
  simp only [isPlain, Bool.and_eq_true, Bool.not_eq_true'] at h
  exact h.2

theorem isPlain_of_isAlphanum {c : Char} (h : c.isAlphanum = true) : isPlain c = true := by
  have visible : isControl c = false := by
    simp only [Char.isAlphanum, Char.isAlpha, Char.isUpper, Char.isLower, Char.isDigit,
      Bool.or_eq_true, Bool.and_eq_true, decide_eq_true_eq, UInt32.le_iff_toNat_le, ge_iff_le] at h
    have ranges : (65 ≤ c.toNat ∧ c.toNat ≤ 90 ∨ 97 ≤ c.toNat ∧ c.toNat ≤ 122) ∨
      48 ≤ c.toNat ∧ c.toNat ≤ 57 := h
    simp only [isControl, Bool.or_eq_false_iff, Bool.and_eq_false_iff, decide_eq_false_iff_not]
    omega
  have noComma : c ≠ ',' := by rintro rfl; cases h
  have noParen : c ≠ ')' := by rintro rfl; cases h
  simp [isPlain, visible, noComma, noParen]

theorem isPlain_of_isDigit {c : Char} (h : c.isDigit = true) : isPlain c = true :=
  isPlain_of_isAlphanum (by rw [Char.isAlphanum, h, Bool.or_true])

theorem IsSymbolName.isPlain {name : String} (h : IsSymbolName name) {c : Char}
    (mem : c ∈ name.toList) : isPlain c = true := by
  rcases h with word | ⟨kind, operator⟩
  · rcases Lexer.mem_of_wordTail word mem with inside | rfl | rfl
    · rw [isWordChar, Bool.or_eq_true, decide_eq_true_eq] at inside
      rcases inside with letter | rfl
      · exact isPlain_of_isAlphanum letter
      · decide
    · decide
    · decide
  · have sign : c = '+' ∨ c = '-' ∨ c = '*' ∨ c = '/' ∨ c = '=' ∨ c = '<' ∨ c = '>' := by
      cases kind <;> cases operator <;> simp only [String.reduceToList, List.mem_cons,
        List.not_mem_nil, or_false] at mem <;> tauto
    rcases sign with rfl | rfl | rfl | rfl | rfl | rfl | rfl <;> decide

/-- A leaf ends in front of a text. -/
def EndsLeaf (rest : List Char) : Prop := ∀ c ∈ rest.head?, isPlain c = false

/-- Where a leaf ends is told by what follows it. -/
theorem eq_of_append_plain {xs ys rest rest' : List Char} (plain : ∀ c ∈ xs, isPlain c = true)
    (plain' : ∀ c ∈ ys, isPlain c = true) (ends : EndsLeaf rest) (ends' : EndsLeaf rest')
    (same : xs ++ rest = ys ++ rest') : xs = ys ∧ rest = rest' := by
  have front {xs rest : List Char} (plain : ∀ c ∈ xs, isPlain c = true) (ends : EndsLeaf rest) :
      (xs ++ rest).takeWhile isPlain = xs := by
    rw [List.takeWhile_append_of_pos plain]
    cases rest with
    | nil => simp
    | cons c rest => simp [ends c rfl]
  obtain rfl : xs = ys := by rw [← front plain ends, same, front plain' ends']
  exact ⟨rfl, List.append_cancel_left same⟩

/-! ## Leaves -/

/-- A character that a number may begin with. -/
def beginsNumber (c : Char) : Bool := c.isDigit || c = '-' || c = 'I' || c = 'N'

/-- The leaf with a text. -/
def ofLeaf : List Char → Value
  | ':' :: name => .sym ⟨String.ofList name⟩
  | 'n' :: _ => .nil
  | 't' :: _ => .bool true
  | 'f' :: _ => .bool false
  | chars =>
    if chars.all fun c => c.isDigit || c = '-' then
      ((readInteger? (String.ofList chars)).map Value.int).getD .nil
    else ((readFloat? (String.ofList chars)).map Value.float).getD .nil

theorem ofLeaf_number {chars : List Char} (number : ∃ c ∈ chars.head?, beginsNumber c = true) :
    ofLeaf chars =
      if chars.all fun c => c.isDigit || c = '-' then
        ((readInteger? (String.ofList chars)).map Value.int).getD .nil
      else ((readFloat? (String.ofList chars)).map Value.float).getD .nil := by
  obtain ⟨c, head, begins⟩ := number
  cases chars with
  | nil => cases head
  | cons first rest =>
      obtain rfl := Option.some.inj head
      rw [ofLeaf]
      all_goals
        rintro rest e
        obtain ⟨rfl, -⟩ := List.cons.inj e
        cases begins

theorem exists_head_withSign {negative : Bool} {chars : List Char}
    (number : ∃ c ∈ chars.head?, beginsNumber c = true) :
    ∃ c ∈ (withSign negative chars).toList.head?, beginsNumber c = true := by
  rw [withSign, String.toList_ofList]
  split
  · exact ⟨'-', rfl, rfl⟩
  · exact number

theorem mem_withSign {negative : Bool} {chars : List Char} {c : Char}
    (mem : c ∈ (withSign negative chars).toList) : c = '-' ∨ c ∈ chars := by
  rw [withSign, String.toList_ofList] at mem
  split at mem
  · exact List.mem_cons.mp mem
  · exact .inr mem

/-- What is true of the text of a leaf: it begins neither a list nor a string, it ends
where a leaf ends, and the leaf can be read from it. -/
structure LeafText (u : Value) (chars : List Char) : Prop where
  begins : ∃ c cs, chars = c :: cs ∧ c ≠ 's' ∧ c ≠ '"'
  plain : ∀ c ∈ chars, isPlain c = true
  read : ofLeaf chars = u.canonical

theorem LeafText.of_word {u : Value} {c : Char} {cs : List Char} (other : c ≠ 's' ∧ c ≠ '"')
    (letters : (c :: cs).all Char.isAlphanum = true) (read : ofLeaf (c :: cs) = u.canonical) :
    LeafText u (c :: cs) :=
  ⟨⟨c, cs, rfl, other⟩, fun _ mem => isPlain_of_isAlphanum (List.all_eq_true.mp letters _ mem),
    read⟩

theorem LeafText.of_number {u : Value} {chars : List Char}
    (number : ∃ c ∈ chars.head?, beginsNumber c = true) (plain : ∀ c ∈ chars, isPlain c = true)
    (read : ofLeaf chars = u.canonical) : LeafText u chars := by
  obtain ⟨c, head, begins⟩ := number
  obtain ⟨cs, rfl⟩ := List.head?_eq_some_iff.mp head
  refine ⟨⟨c, cs, rfl, ?_, ?_⟩, plain, read⟩ <;> · rintro rfl; cases begins

theorem leafText_int (n : Int64) : LeafText (.int n) (Value.text (.int n)).toList := by
  have text : Value.text (.int n) = integerText n := toString_toInt n
  have digit : ∀ c ∈ (integerText n).toList, c = '-' ∨ c.isDigit = true := fun c mem =>
    (mem_withSign mem).imp_right Decimal.isDigit_of_mem_text
  have number : ∃ c ∈ (integerText n).toList.head?, beginsNumber c = true := by
    obtain ⟨c, head, isDigit⟩ := Decimal.head_text (Decimal.digits_ne_nil n.toInt.natAbs) []
    rw [List.append_nil] at head
    exact exists_head_withSign ⟨c, head, by rw [beginsNumber, isDigit]; rfl⟩
  rw [text]
  refine .of_number number (fun c mem => ?_) ?_
  · rcases digit c mem with rfl | isDigit
    · decide
    · exact isPlain_of_isDigit isDigit
  · have all : ((integerText n).toList.all fun c => c.isDigit || c = '-') = true := by
      rw [List.all_eq_true]
      intro c mem
      rcases digit c mem with rfl | isDigit
      · rfl
      · rw [isDigit, Bool.true_or]
    rw [ofLeaf_number number, if_pos all, String.ofList_toList, readInteger?_integerText]
    rfl

/-- The magnitude of a number begins like one, and has a character that no integer has. -/
theorem magnitude_chars (x : Binary64) {chars : List Char}
    (form : chars = if x.isInfinite then "Infinity".toList
      else FloatLayout.value.decimal x.shortest) :
    (∃ c ∈ chars.head?, beginsNumber c = true) ∧ (∀ c ∈ chars, isPlain c = true) ∧
      ∃ c ∈ chars, (c.isDigit || decide (c = '-')) = false := by
  subst form
  split
  · refine ⟨⟨'I', rfl, rfl⟩, fun c mem => isPlain_of_isAlphanum ?_, 'I', ?_, rfl⟩
    · exact List.all_eq_true.mp (show "Infinity".toList.all Char.isAlphanum = true from rfl) c mem
    · simp
  · obtain ⟨digit, rest, begins⟩ := FloatLayout.head_decimal x.shortest
    refine ⟨⟨digit.char, by rw [begins]; rfl, ?_⟩, fun c mem => ?_, '.',
      FloatLayout.point_mem_decimal _, rfl⟩
    · rw [beginsNumber, digit.isDigit_char]
      rfl
    · rcases FloatLayout.mem_decimal mem with isDigit | rfl | rfl | rfl | rfl
      · exact isPlain_of_isDigit isDigit
      all_goals decide

/-- A float has a point, or is the name of what it is. -/
theorem leafText_float (x : Binary64) : LeafText (.float x) (Value.text (.float x)).toList := by
  show LeafText (.float x) (FloatLayout.value.write x).toList
  cases notNaN : x.isNaN with
  | true =>
      have text : (FloatLayout.value.write x).toList = ['N', 'a', 'N'] := by
        rw [FloatLayout.write, notNaN, if_pos rfl]
        simp only [FloatLayout.value, String.reduceToList]
      rw [text]
      refine .of_word (by decide) rfl ?_
      rw [Value.canonical, Binary64.canonical, notNaN]
      rfl
  | false =>
      obtain ⟨number, plain, other, mem, noInteger⟩ := magnitude_chars x rfl
      have float :
          ¬ ((FloatLayout.value.write x).toList.all fun c => c.isDigit || c = '-') = true := by
        rw [List.all_eq_true, FloatLayout.write_eq notNaN, withSign, String.toList_ofList]
        intro all
        have digit := all other (by split; exacts [List.mem_cons_of_mem _ mem, mem])
        rw [noInteger] at digit
        cases digit
      have number' : ∃ c ∈ (FloatLayout.value.write x).toList.head?, beginsNumber c = true := by
        rw [FloatLayout.write_eq notNaN]
        exact exists_head_withSign number
      refine .of_number number' (fun c mem => ?_) ?_
      · rw [FloatLayout.write_eq notNaN] at mem
        rcases mem_withSign mem with rfl | mem
        · decide
        · exact plain c mem
      · rw [ofLeaf_number number', if_neg float, String.ofList_toList,
          FloatLayout.readFloat?_write notNaN, Value.canonical, Binary64.canonical, notNaN]
        rfl

theorem leafText_sym {symbol : Symbol} (named : IsSymbolName symbol.name) :
    LeafText (.sym symbol) (Value.text (.sym symbol)).toList := by
  have text : (Value.text (.sym symbol)).toList = ':' :: symbol.name.toList := by
    show (":" ++ symbol.name).toList = _
    rw [String.toList_append]
    rfl
  rw [text]
  refine ⟨⟨':', _, rfl, by decide⟩, fun c mem => ?_, ?_⟩
  · rcases List.mem_cons.mp mem with rfl | mem
    · decide
    · exact named.isPlain mem
  · rw [ofLeaf, String.ofList_toList]
    rfl

/-! ## Kinds of text -/

namespace Value

/-- The kinds of text, told by their first characters. -/
inductive Form where
  | leaf
  | string
  | list
deriving DecidableEq

def Form.ofChar : Char → Form
  | 's' => .list
  | '"' => .string
  | _ => .leaf

def form : Value → Form
  | str _ => .string
  | sexp .. => .list
  | _ => .leaf

theorem toList_text_str (s : String) :
    (str s).text.toList = '"' :: (Text.valueBody s.toList ++ ['"']) := by
  rw [text, Text.quoteValue, String.toList_ofList]
  rfl

theorem toList_text_sexp (tag : Symbol) (children : List Value) :
    (sexp tag children).text.toList
      = 's' :: '(' :: ':' :: (tag.name.toList ++ ((childrenText children).toList ++ [')'])) := by
  rw [text, Symbol.text]
  simp

theorem toList_childrenText_cons (child : Value) (rest : List Value) :
    (childrenText (child :: rest)).toList
      = ',' :: ' ' :: (child.text.toList ++ (childrenText rest).toList) := by
  rw [childrenText]
  simp

variable {u v : Value}

theorem leafText (leaf : u.form = .leaf) (named : u.Named) :
    LeafText u u.text.toList := by
  cases u with
  | nil =>
      show LeafText nil ['n', 'i', 'l']
      exact .of_word (by decide) rfl rfl
  | bool b =>
      cases b with
      | true =>
          show LeafText (bool true) ['t', 'r', 'u', 'e']
          exact .of_word (by decide) rfl rfl
      | false =>
          show LeafText (bool false) ['f', 'a', 'l', 's', 'e']
          exact .of_word (by decide) rfl rfl
  | int n => exact leafText_int n
  | float x => exact leafText_float x
  | sym symbol => exact leafText_sym (named _ List.mem_cons_self)
  | str => cases leaf
  | sexp => cases leaf

/-- The first character of a text tells what kind of text it is. -/
theorem exists_head_text (named : u.Named) :
    ∃ c cs, u.text.toList = c :: cs ∧ Form.ofChar c = u.form := by
  cases kind : u.form with
  | leaf =>
      obtain ⟨c, cs, head, noList, noString⟩ := (leafText kind named).begins
      refine ⟨c, cs, head, ?_⟩
      unfold Form.ofChar
      split
      · exact absurd rfl noList
      · exact absurd rfl noString
      · rfl
  | string =>
      cases u with
      | str s => exact ⟨_, _, toList_text_str s, rfl⟩
      | _ => cases kind
  | list =>
      cases u with
      | sexp tag children => exact ⟨_, _, toList_text_sexp tag children, rfl⟩
      | _ => cases kind

/-! ## Equal texts

Values whose texts begin one text are compared from the left.  The first character tells
their kinds; leaves of one kind are told apart where they end, and lists by their tags and
then child by child.  The statements have a rest behind each text, since children are
followed by others. -/

section

variable {rest rest' : List Char} (named : u.Named) (named' : v.Named)
  (same : u.text.toList ++ rest = v.text.toList ++ rest')

include named named' same

theorem form_eq : u.form = v.form := by
  obtain ⟨c, cs, head, form⟩ := exists_head_text named
  obtain ⟨c', cs', head', form'⟩ := exists_head_text named'
  rw [head, head'] at same
  rw [← form, ← form', (List.cons.inj same).1]

/-- Leaves that begin one text are the same. -/
theorem leaf_eq_of_append (leaf : u.form = .leaf) (ends : EndsLeaf rest) (ends' : EndsLeaf rest') :
    u.canonical = v.canonical ∧ rest = rest' := by
  have first := leafText leaf named
  have second := leafText (form_eq named named' same ▸ leaf) named'
  obtain ⟨chars, behind⟩ := eq_of_append_plain first.plain second.plain ends ends' same
  exact ⟨by rw [← first.read, ← second.read, chars], behind⟩

end

theorem endsLeaf_childrenText (us : List Value) (rest : List Char) :
    EndsLeaf ((childrenText us).toList ++ ')' :: rest) := by
  intro c head
  cases us with
  | nil => obtain rfl := Option.some.inj head; decide
  | cons u us =>
      rw [toList_childrenText_cons] at head
      obtain rfl := Option.some.inj head
      decide

mutual

/-- Values whose texts begin one text, each up to where a leaf would end, are the same, and
so is what follows them. -/
theorem canonical_eq_of_append : (u v : Value) → (rest rest' : List Char) → u.Named → v.Named →
    EndsLeaf rest → EndsLeaf rest' → u.text.toList ++ rest = v.text.toList ++ rest' →
    u.canonical = v.canonical ∧ rest = rest'
  | nil, _, _, _ | bool _, _, _, _ | int _, _, _, _ | float _, _, _, _ | sym _, _, _, _ =>
      fun named named' ends ends' same => leaf_eq_of_append named named' same rfl ends ends'
  | str s, v, rest, rest' => by
      intro named named' _ _ same
      have form := form_eq named named' same
      cases v with
      | str s' =>
          rw [toList_text_str, toList_text_str, List.cons_append, List.cons_append,
            List.append_assoc, List.append_assoc, List.cons.injEq] at same
          have first := Text.readValueBody_valueBody s.toList rest
          have second := Text.readValueBody_valueBody s'.toList rest'
          obtain ⟨chars, behind⟩ :=
            Prod.mk.inj (first.symm.trans ((congrArg _ same.2).trans second))
          exact ⟨by rw [String.toList_inj.mp chars], behind⟩
      | _ => cases form
  | sexp tag children, v, rest, rest' => by
      intro named named' _ _ same
      have form := form_eq named named' same
      cases v with
      | sexp tag' children' =>
          rw [Named, symbolNames, List.forall_mem_cons] at named named'
          rw [toList_text_sexp, toList_text_sexp] at same
          simp only [List.cons_append, List.append_assoc, List.cons.injEq, true_and,
            List.nil_append] at same
          obtain ⟨chars, inside⟩ := eq_of_append_plain (fun _ => named.1.isPlain)
            (fun _ => named'.1.isPlain) (endsLeaf_childrenText _ _) (endsLeaf_childrenText _ _) same
          obtain ⟨below, behind⟩ := allCanonical_eq_of_append children children' rest rest'
            named.2 named'.2 inside
          obtain rfl : tag = tag' := congrArg Symbol.mk (String.toList_inj.mp chars)
          exact ⟨by rw [canonical, canonical, below], behind⟩
      | _ => cases form

theorem allCanonical_eq_of_append : (us vs : List Value) → (rest rest' : List Char) →
    AllNamed us → AllNamed vs →
    (childrenText us).toList ++ ')' :: rest = (childrenText vs).toList ++ ')' :: rest' →
    allCanonical us = allCanonical vs ∧ rest = rest'
  | [], [], _, _ => fun _ _ same => ⟨rfl, (List.cons.inj same).2⟩
  | [], v :: vs, rest, rest' => by
      intro _ _ same
      rw [toList_childrenText_cons] at same
      exact absurd (List.cons.inj same).1 (by decide)
  | u :: us, [], rest, rest' => by
      intro _ _ same
      rw [toList_childrenText_cons] at same
      exact absurd (List.cons.inj same).1 (by decide)
  | u :: us, v :: vs, rest, rest' => by
      intro named named' same
      rw [AllNamed, allSymbolNames, List.forall_mem_append] at named named'
      rw [toList_childrenText_cons, toList_childrenText_cons] at same
      simp only [List.cons_append, List.append_assoc, List.cons.injEq, true_and] at same
      obtain ⟨first, further⟩ := canonical_eq_of_append u v _ _ named.1 named'.1
        (endsLeaf_childrenText us rest) (endsLeaf_childrenText vs rest') same
      obtain ⟨others, behind⟩ := allCanonical_eq_of_append us vs rest rest' named.2 named'.2 further
      exact ⟨by rw [allCanonical, allCanonical, first, others], behind⟩

end

mutual

/-- A text does not tell which bits stand for no number. -/
theorem text_canonical : (u : Value) → u.canonical.text = u.text
  | float x => by
      rw [canonical, Binary64.canonical]
      split
      · rename_i noNumber
        rw [text, text, FloatLayout.write, FloatLayout.write, if_pos noNumber]
        rfl
      · rfl
  | sexp tag children => by
      rw [canonical, text, text, childrenText_allCanonical children]
  | nil | bool _ | int _ | str _ | sym _ => rfl

theorem childrenText_allCanonical : (us : List Value) →
    childrenText (allCanonical us) = childrenText us
  | [] => rfl
  | u :: us => by
      rw [allCanonical, childrenText, childrenText, text_canonical u, childrenText_allCanonical us]

end

/-! ## Control characters -/

mutual

/-- A text holds no control characters. -/
theorem isControl_of_mem_text : (u : Value) → u.Named → ∀ c ∈ u.text.toList, isControl c = false
  | nil | bool _ | int _ | float _ => fun named c mem =>
      isControl_of_isPlain ((leafText rfl named).plain c mem)
  | sym _ => fun named c mem => isControl_of_isPlain ((leafText rfl named).plain c mem)
  | str s => by
      intro _ c mem
      rw [toList_text_str, List.mem_cons, List.mem_append, List.mem_singleton] at mem
      rcases mem with rfl | mem | rfl
      · decide
      · exact Text.isControl_of_mem_valueBody mem
      · decide
  | sexp tag children => by
      intro named c mem
      rw [Named, symbolNames, List.forall_mem_cons] at named
      rw [toList_text_sexp] at mem
      simp only [List.mem_cons, List.mem_append, List.not_mem_nil, or_false] at mem
      rcases mem with rfl | rfl | rfl | mem | mem | rfl
      · decide
      · decide
      · decide
      · exact isControl_of_isPlain (named.1.isPlain mem)
      · exact isControl_of_mem_childrenText children named.2 c mem
      · decide

theorem isControl_of_mem_childrenText : (us : List Value) → AllNamed us →
    ∀ c ∈ (childrenText us).toList, isControl c = false
  | [] => fun _ _ mem => absurd mem List.not_mem_nil
  | u :: us => by
      intro named c mem
      rw [AllNamed, allSymbolNames, List.forall_mem_append] at named
      rw [toList_childrenText_cons, List.mem_cons, List.mem_cons, List.mem_append] at mem
      rcases mem with rfl | rfl | mem | mem
      · decide
      · decide
      · exact isControl_of_mem_text u named.1 c mem
      · exact isControl_of_mem_childrenText us named.2 c mem

end

/-! ## What a text tells -/

/-- Two values whose symbols have proper names have the same text iff they are the same, up
to the bits that stand for no number; and their texts hold no control characters. -/
theorem text_eq_iff {u v : Value} (named : u.Named) (named' : v.Named) :
    (u.text = v.text ↔ u.canonical = v.canonical) ∧
      (∀ c ∈ u.text.toList, isControl c = false) ∧ ∀ c ∈ v.text.toList, isControl c = false := by
  refine ⟨⟨fun same => ?_, fun same => ?_⟩, isControl_of_mem_text u named,
    isControl_of_mem_text v named'⟩
  · have none : EndsLeaf [] := by rintro c ⟨⟩
    exact (canonical_eq_of_append u v [] [] named named' none none (by rw [same])).1
  · rw [← text_canonical u, ← text_canonical v, same]

/-- A text that has to be escaped, an operator, and two ways to be no number. -/
theorem text_eq_iff_of_escapes :
    ∃ u v : Value,
      u = sexp ⟨"call"⟩ [str "\"#\x7b,)\x07", sym ⟨"<="⟩, float ⟨0x7FF8000000000000⟩] ∧
        v = sexp ⟨"call"⟩ [str "\"#\x7b,)\x07", sym ⟨"<="⟩, float ⟨0xFFF0000000000001⟩] ∧
        u.Named ∧ v.Named ∧ (u.text = v.text ↔ u.canonical = v.canonical) ∧
        (∀ c ∈ u.text.toList, isControl c = false) ∧ ∀ c ∈ v.text.toList, isControl c = false := by
  have word : IsSymbolName "call" := .inl (by cbv)
  have operator : IsSymbolName "<=" := .inr ⟨.lessEqual, rfl⟩
  have named : ∀ name ∈ ["call", "<="], IsSymbolName name :=
    List.forall_mem_cons.mpr ⟨word, List.forall_mem_singleton.mpr operator⟩
  exact ⟨_, _, rfl, rfl, named, named, text_eq_iff named named⟩

end Value

end RubyReader
