/-
# `Typed` — a line of an input

A line ends with a newline, or with the end of the input if there is something on it.  With
its end it stands in the input between what is in front of it, which ends with a newline
itself if it is not empty, and what is behind it:

    front  line  ending  back

The lines of the input are then those in front, this one, and those behind; and without it
and its end they are the others (`lines_of_isLine`, `lines_append`).
-/
import RubyReader.Command.Typed

namespace RubyReader.TypedLines

/-- A line of a text with its end, between what is in front of it and what is behind it. -/
structure IsLine (front line ending back : String) : Prop where
  begins : ∀ c ∈ front.toList.getLast?, c = '\n'
  within : '\n' ∉ line.toList
  ends : ending = "\n" ∨ ending = "" ∧ line ≠ "" ∧ back = ""

/-- A line as it is read: in front of a newline it loses a carriage return. -/
def lineRead (line ending : String) : String :=
  if ending = "\n" then finished line.toList.reverse else line

/-! ## Cutting at newlines

What is in front of a newline is cut without regard to what is behind it.  So a line can be
taken out of a text, or put in, and the others stay as they are. -/

theorem split_append_of_not_mem {chars : List Char} (within : '\n' ∉ chars)
    (seen rest : List Char) : split seen (chars ++ rest) = split (chars.reverse ++ seen) rest := by
  induction chars generalizing seen with
  | nil => rfl
  | cons c chars ih =>
      rw [List.mem_cons, not_or] at within
      rw [List.cons_append, split, if_neg (Ne.symm within.1), ih within.2, List.reverse_cons,
        List.append_assoc]
      rfl

theorem split_append_newline (chars seen rest : List Char) :
    split seen (chars ++ '\n' :: rest) = split seen (chars ++ ['\n']) ++ split [] rest := by
  induction chars generalizing seen with
  | nil => rfl
  | cons c chars ih =>
      rw [List.cons_append, List.cons_append, split, split]
      split
      · rw [ih, List.cons_append]
      · exact ih _

/-- The lines of a text whose first part ends with a newline are those of its parts. -/
theorem lines_append {front : String} (begins : ∀ c ∈ front.toList.getLast?, c = '\n')
    (back : String) :
    (ofText (front ++ back)).lines = (ofText front).lines ++ (ofText back).lines := by
  show split [] (front ++ back).toList = split [] front.toList ++ split [] back.toList
  rw [String.toList_append]
  rcases List.eq_nil_or_concat front.toList with none | ⟨chars, last, all⟩
  · rw [none]
    rfl
  · rw [List.concat_eq_append] at all
    obtain rfl : last = '\n' := begins last (by rw [all, List.getLast?_concat]; rfl)
    rw [all, List.append_assoc]
    exact split_append_newline chars [] back.toList

theorem lines_cons {line ending back : String} (within : '\n' ∉ line.toList)
    (ends : ending = "\n" ∨ ending = "" ∧ line ≠ "" ∧ back = "") :
    (ofText (line ++ ending ++ back)).lines = lineRead line ending :: (ofText back).lines := by
  show split [] (line ++ ending ++ back).toList = _ :: split [] back.toList
  rw [String.toList_append, String.toList_append, List.append_assoc,
    split_append_of_not_mem within, List.append_nil]
  rcases ends with rfl | ⟨rfl, some, rfl⟩
  · rfl
  · have nonempty : line.toList.reverse.isEmpty = false := by
      rw [List.isEmpty_reverse, List.isEmpty_eq_false_iff]
      exact fun none => some (String.toList_eq_nil_iff.mp none)
    show split line.toList.reverse [] = [line]
    rw [split, nonempty, if_neg Bool.false_ne_true, List.reverse_reverse, String.ofList_toList]

theorem lines_of_isLine {front line ending back : String} (h : IsLine front line ending back) :
    (ofText (front ++ line ++ ending ++ back)).lines
      = (ofText front).lines ++ lineRead line ending :: (ofText back).lines := by
  rw [← lines_cons h.within h.ends, ← lines_append h.begins, String.append_assoc,
    String.append_assoc, String.append_assoc]

theorem ofBytes_toUTF8 (text : String) : ofBytes text.toUTF8 = ofText text := by
  have valid : String.fromUTF8? text.toUTF8 = some text := dif_pos text.isValidUTF8
  rw [ofBytes, valid]

end RubyReader.TypedLines
