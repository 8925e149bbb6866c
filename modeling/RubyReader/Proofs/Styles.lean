/-
# `Styles` — colours come off a text

To a terminal a text is a row of signals: characters, and control sequences with their
parameters,

    ESC [ parameter* m

of which `ESC[0m` switches all styles off and any other one switches a style on.  Without
its control sequences a value in colour has the plain text of the value, since strings are
written without escape characters.  No style is switched on before the last one is off, and
none is on at the end (`Value.pretty_shows`).

How spans are set is left open but for two laws (`Styling.Lawful`).  What a styled text shows
is stated in front of any rest (`Shows`), so that texts can be put together.
-/
import Mathlib
import RubyReader.Proofs.Display

namespace RubyReader

/-! ## Signals -/

/-- What a terminal is sent. -/
inductive Signal where
  | char (c : Char)
  | control (parameters : List Char)
deriving DecidableEq

namespace Signal

/-- A character among the parameters of a control sequence. -/
def isParameter (c : Char) : Bool := c.isDigit || c = ';'

/-- The parameters of a control sequence and what is behind it, if a text is one behind its
escape character. -/
def control? : List Char → Option (List Char × List Char)
  | '[' :: chars =>
    match chars.dropWhile isParameter with
    | 'm' :: rest => some (chars.takeWhile isParameter, rest)
    | _ => none
  | _ => none

theorem length_of_control? {chars parameters rest : List Char}
    (h : control? chars = some (parameters, rest)) : rest.length < chars.length := by
  unfold control? at h
  split at h
  · rename_i chars
    split at h
    · rename_i behind
      obtain ⟨-, rfl⟩ := Prod.mk.inj (Option.some.inj h)
      have shorter := (List.dropWhile_sublist isParameter (l := chars)).length_le
      rw [behind, List.length_cons] at shorter
      rw [List.length_cons]
      omega
    · cases h
  · cases h

theorem control?_parameters {parameters : List Char} (all : parameters.all isParameter = true)
    (rest : List Char) :
    control? ('[' :: (parameters ++ 'm' :: rest)) = some (parameters, rest) := by
  have behind : ('m' :: rest).dropWhile isParameter = 'm' :: rest := rfl
  have inside : ('m' :: rest).takeWhile isParameter = [] := rfl
  have all := List.all_eq_true.mp all
  rw [control?, List.dropWhile_append_of_pos all, List.takeWhile_append_of_pos all, behind,
    inside, List.append_nil]
  rfl

/-- The signals of a text. -/
def ofChars : List Char → List Signal
  | [] => []
  | c :: chars =>
    match _ : if c = '\x1b' then control? chars else none with
    | some (parameters, rest) => control parameters :: ofChars rest
    | none => char c :: ofChars chars
termination_by chars => chars.length
decreasing_by
  · rename_i found
    have behind : control? chars = some (parameters, rest) := by
      split at found
      · exact found
      · cases found
    exact Nat.lt_succ_of_lt (length_of_control? behind)
  · exact Nat.lt_succ_self _

/-- What is seen of a signal. -/
def shown : Signal → List Char
  | char c => [c]
  | control _ => []

/-- Whether a style is on behind signals, if one is switched on only where none is, and off
only where one is. -/
def switch (on : Bool) : List Signal → Option Bool
  | [] => some on
  | char _ :: rest => switch on rest
  | control parameters :: rest =>
    if on = decide (parameters = ['0']) then switch (!on) rest else none

theorem ofChars_char {c : Char} (plain : c ≠ '\x1b') (chars : List Char) :
    ofChars (c :: chars) = char c :: ofChars chars := by
  rw [ofChars]
  split
  · rename_i found
    rw [if_neg plain] at found
    cases found
  · rfl

theorem ofChars_append {plain : List Char} (noEscape : '\x1b' ∉ plain) (rest : List Char) :
    ofChars (plain ++ rest) = plain.map char ++ ofChars rest := by
  induction plain with
  | nil => rfl
  | cons c plain ih =>
      rw [List.mem_cons, not_or] at noEscape
      rw [List.cons_append, ofChars_char (Ne.symm noEscape.1), ih noEscape.2]
      rfl

/-- The characters of a control sequence. -/
def sequence (parameters : List Char) : List Char := '\x1b' :: '[' :: (parameters ++ ['m'])

theorem ofChars_sequence {parameters : List Char} (all : parameters.all isParameter = true)
    (rest : List Char) :
    ofChars (sequence parameters ++ rest) = control parameters :: ofChars rest := by
  have written : sequence parameters ++ rest = '\x1b' :: '[' :: (parameters ++ 'm' :: rest) := by
    simp [sequence]
  have behind := control?_parameters all rest
  rw [written, ofChars]
  split
  · rename_i found
    rw [if_pos rfl, behind] at found
    obtain ⟨rfl, rfl⟩ := Prod.mk.inj (Option.some.inj found)
    rfl
  · rename_i found
    rw [if_pos rfl, behind] at found
    cases found

theorem switch_append (on : Bool) (signals more : List Signal) :
    switch on (signals ++ more) = (switch on signals).bind fun on => switch on more := by
  induction signals generalizing on with
  | nil => rfl
  | cons signal signals ih =>
      cases signal with
      | char c => exact ih on
      | control parameters =>
          rw [List.cons_append, switch, switch]
          split
          · exact ih _
          · rfl

theorem switch_map_char (on : Bool) (chars : List Char) : switch on (chars.map char) = some on := by
  induction chars with
  | nil => rfl
  | cons c chars ih => exact ih

theorem flatMap_shown_map_char (chars : List Char) : (chars.map char).flatMap shown = chars := by
  rw [List.flatMap_map]
  exact List.flatMap_singleton' chars

end Signal

open Signal

/-- The characters of a text without its control sequences. -/
def unstyled (text : String) : String :=
  String.ofList ((ofChars text.toList).flatMap shown)

/-- In a text every style is switched off before the next one is switched on, and in the end
none is on. -/
def StylesApart (text : String) : Prop := switch false (ofChars text.toList) = some false

instance (text : String) : Decidable (StylesApart text) :=
  inferInstanceAs (Decidable (_ = _))

/-- A style that is switched on inside another one, and a sequence that does not end. -/
example : unstyled "\x1b[1ma\x1b[36mb\x1b[0m\x1b[" = "ab\x1b[" ∧
    ¬ StylesApart "\x1b[1ma\x1b[36mb\x1b[0m" := by
  decide +kernel

/-! ## What styled texts show -/

/-- In front of any rest, signals by which no style stays on show a plain text. -/
def Shows (styled plain : List Char) : Prop :=
  ∃ signals, (∀ rest, ofChars (styled ++ rest) = signals ++ ofChars rest) ∧
    signals.flatMap shown = plain ∧ switch false signals = some false

namespace Shows

variable {styled styled' plain plain' : List Char}

theorem of_plain (noEscape : '\x1b' ∉ plain) : Shows plain plain :=
  ⟨plain.map char, ofChars_append noEscape, flatMap_shown_map_char plain, switch_map_char _ _⟩

theorem append (first : Shows styled plain) (second : Shows styled' plain') :
    Shows (styled ++ styled') (plain ++ plain') := by
  obtain ⟨signals, sent, rfl, closed⟩ := first
  obtain ⟨signals', sent', rfl, closed'⟩ := second
  refine ⟨signals ++ signals', fun rest => ?_, List.flatMap_append, ?_⟩
  · rw [List.append_assoc, sent, sent', List.append_assoc]
  · rw [switch_append, closed, Option.bind_some, closed']

theorem span {parameters : List Char} (all : parameters.all isParameter = true)
    (opens : parameters ≠ ['0']) (noEscape : '\x1b' ∉ plain) :
    Shows (sequence parameters ++ plain ++ sequence ['0']) plain := by
  refine ⟨control parameters :: (plain.map char ++ [control ['0']]), fun rest => ?_, ?_, ?_⟩
  · simp only [List.append_assoc]
    rw [ofChars_sequence all, ofChars_append noEscape, ofChars_sequence rfl]
    simp only [List.cons_append, List.nil_append, List.append_assoc]
  · simp [shown, flatMap_shown_map_char]
  · simp [switch, opens, switch_append, switch_map_char]

end Shows

theorem Shows.unstyled_eq {styled plain : String} (h : Shows styled.toList plain.toList) :
    unstyled styled = plain ∧ StylesApart styled := by
  obtain ⟨signals, sent, seen, closed⟩ := h
  have none : ofChars [] = [] := by rw [ofChars]
  have all := sent []
  rw [List.append_nil, none, List.append_nil] at all
  rw [unstyled, StylesApart, all, seen, String.ofList_toList]
  exact ⟨rfl, closed⟩

/-! ## Ways to set spans -/

namespace Styling

/-- What a way to set spans is relied on for: without colours nothing is added to a text, and
in colour a span in one style is its text between one control sequence of that style and the
one that switches all styles off. -/
structure Lawful (styling : Styling) : Prop where
  plain : ∀ styles text, styling.span styles false text = text
  coloured : ∀ style, ∃ parameters, parameters.all isParameter = true ∧ parameters ≠ ['0'] ∧
    ∀ text, (styling.span [style] true text).toList
      = sequence parameters ++ text.toList ++ sequence ['0']

theorem Lawful.shows {styling : Styling} (lawful : styling.Lawful) (style : Style) {text : String}
    (noEscape : '\x1b' ∉ text.toList) :
    Shows (styling.span [style] true text).toList text.toList := by
  obtain ⟨parameters, all, opens, set⟩ := lawful.coloured style
  rw [set]
  exact .span all opens noEscape

theorem sequences_lawful : sequences.Lawful where
  plain _ _ := rfl
  coloured style := by
    refine ⟨style.parameter.toList, ?_, ?_, fun text => ?_⟩
    · cases style <;> decide
    · cases style <;> decide
    · simp [span, Styling.control, Signal.sequence]

end Styling

/-! ## Values -/

namespace Value

/-- A text without symbols has no escape character. -/
theorem escape_not_mem_text {v : Value} (none : v.symbolNames = []) : '\x1b' ∉ v.text.toList := by
  have named : v.Named := by
    rw [Named, none]
    exact nofun
  exact fun mem => absurd (isControl_of_mem_text v named _ mem) (by decide)

theorem escape_not_mem_symbol {symbol : Symbol} (noEscape : '\x1b' ∉ symbol.name.toList) :
    '\x1b' ∉ symbol.text.toList := by
  have spelled : symbol.text.toList = ':' :: symbol.name.toList := by
    rw [Symbol.text, String.toList_append]
    rfl
  rw [spelled, List.mem_cons, not_or]
  exact ⟨by decide, noEscape⟩

section Shown

variable [styling : Styling]

mutual

theorem pretty_false (lawful : styling.Lawful) : (v : Value) → v.pretty false = v.text
  | sexp tag children => by
      rw [pretty, text, lawful.plain, childrenPretty_false lawful children]
  | nil | bool _ | int _ | float _ | str _ | sym _ => lawful.plain _ _

theorem childrenPretty_false (lawful : styling.Lawful) :
    (vs : List Value) → childrenPretty false vs = childrenText vs
  | [] => rfl
  | child :: rest => by
      rw [childrenPretty, childrenText, pretty_false lawful child,
        childrenPretty_false lawful rest]

end

mutual

theorem shows_pretty (lawful : styling.Lawful) :
    (v : Value) → (∀ name ∈ v.symbolNames, '\x1b' ∉ name.toList) →
    Shows (v.pretty true).toList v.text.toList
  | nil, _ => lawful.shows .magenta (escape_not_mem_text rfl)
  | bool _, _ => lawful.shows .magenta (escape_not_mem_text rfl)
  | int _, _ => lawful.shows .yellow (escape_not_mem_text rfl)
  | float _, _ => lawful.shows .yellow (escape_not_mem_text rfl)
  | str _, _ => lawful.shows .green (escape_not_mem_text rfl)
  | sym symbol, names => lawful.shows .cyan (escape_not_mem_symbol (names _ List.mem_cons_self))
  | sexp tag children, names => by
      rw [symbolNames, List.forall_mem_cons] at names
      have bold := lawful.shows .bold (escape_not_mem_symbol names.1)
      have inside := shows_childrenPretty lawful children names.2
      have before : Shows "s(".toList "s(".toList := .of_plain (by decide)
      have behind : Shows ")".toList ")".toList := .of_plain (by decide)
      rw [pretty, text]
      simp only [String.toList_append]
      exact ((before.append bold).append inside).append behind

theorem shows_childrenPretty (lawful : styling.Lawful) : (vs : List Value) →
    (∀ name ∈ allSymbolNames vs, '\x1b' ∉ name.toList) →
    Shows (childrenPretty true vs).toList (childrenText vs).toList
  | [], _ => .of_plain (List.not_mem_nil : '\x1b' ∉ [])
  | child :: rest, names => by
      rw [allSymbolNames, List.forall_mem_append] at names
      have mark : Shows ", ".toList ", ".toList := .of_plain (by decide)
      rw [childrenPretty, childrenText]
      simp only [String.toList_append]
      have first := shows_pretty lawful child names.1
      exact (mark.append first).append (shows_childrenPretty lawful rest names.2)

end

/-- Whatever sets the spans: without colours a value is shown as its text.  With colours it
is shown as its text between control sequences, if no symbol holds an escape character: what
is left without them is the text, each style is switched off before the next one is switched
on, and none is on in the end. -/
theorem pretty_shows (lawful : styling.Lawful) (v : Value) :
    v.pretty false = v.text ∧
      ((∀ name ∈ v.symbolNames, '\x1b' ∉ name.toList) →
        unstyled (v.pretty true) = v.text ∧ StylesApart (v.pretty true)) :=
  ⟨pretty_false lawful v, fun names => (shows_pretty lawful v names).unstyled_eq⟩

end Shown

/-- A string that holds a control sequence, in a list within a list. -/
theorem pretty_shows_of_sequence :
    ∃ v : Value, v = sexp ⟨"a"⟩ [sexp ⟨"b"⟩ [str "\x1b[1m"], nil] ∧
      Styling.sequences.Lawful ∧ (∀ name ∈ v.symbolNames, '\x1b' ∉ name.toList) ∧
      v.text = "s(:a, s(:b, \"\\e[1m\"), nil)" ∧
      v.pretty false = v.text ∧ unstyled (v.pretty true) = v.text ∧ StylesApart (v.pretty true) := by
  have lawful := Styling.sequences_lawful
  have names : ∀ name ∈ ["a", "b"], '\x1b' ∉ name.toList := by decide
  obtain ⟨plain, coloured⟩ := pretty_shows lawful
    (sexp ⟨"a"⟩ [sexp ⟨"b"⟩ [str "\x1b[1m"], nil])
  exact ⟨_, rfl, lawful, names, by decide +kernel, plain, coloured names⟩

end Value

end RubyReader
