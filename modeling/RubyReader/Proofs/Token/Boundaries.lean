/-
# `Boundaries` — where a lexeme ends

How far a lexeme reaches depends on the characters behind it only until one comes that
no lexeme but a string or a blank goes on with.  So what stands behind a break (a blank or
a line end) is never looked at (`classify_append`), and a lexeme that is cut out of its
text is the same lexeme (`classify_take`).
-/
import RubyReader.Proofs.Token.Lexing
import Mathlib.Data.List.TakeWhile

namespace RubyReader.Lexer

/-! ## Breaks -/

/-- A text that begins with a blank or a line end, or is empty. -/
inductive Breaks : List Char → Prop
  | nil : Breaks []
  | space (rest : List Char) : Breaks (' ' :: rest)
  | newline (rest : List Char) : Breaks ('\n' :: rest)

/-- A test that fails for a blank and a line end fails at every break. -/
theorem Breaks.stops {rest : List Char} (breaks : Breaks rest) {test : Char → Bool}
    (space : test ' ' = false) (newline : test '\n' = false) :
    ∀ c ∈ rest.head?, test c = false := by
  cases breaks with
  | nil => exact nofun
  | space =>
      rintro _ ⟨⟩
      exact space
  | newline =>
      rintro _ ⟨⟩
      exact newline

variable {cs rest : List Char}

/-! ## Runs

A run ends where its test first fails.  If it fails at every break, a run in front of one is
no longer with more text behind. -/

theorem runLength_append {test : Char → Bool} (stops : ∀ c ∈ rest.head?, test c = false) :
    runLength test (cs ++ rest) = runLength test cs := by
  induction cs with
  | nil =>
      cases rest with
      | nil => rfl
      | cons c rest => simp [runLength, stops c rfl]
  | cons c cs ih =>
      simp only [runLength, List.cons_append, List.takeWhile_cons] at ih ⊢
      cases test c with
      | false => rfl
      | true => exact congrArg Nat.succ ih

variable (cs) in
theorem runLength_le (test : Char → Bool) : runLength test cs ≤ cs.length :=
  (List.takeWhile_prefix test).length_le

theorem drop_runLength (test : Char → Bool) :
    (cs ++ rest).drop (runLength test cs) = cs.drop (runLength test cs) ++ rest :=
  List.drop_append_of_le_length (runLength_le cs test)

theorem length_drop_runLength {test : Char → Bool} {left : List Char}
    (h : cs.drop (runLength test cs) = left) : runLength test cs + left.length = cs.length := by
  have run := runLength_le cs test
  rw [← h, List.length_drop]
  omega

variable (cs) in
theorem exists_run (test : Char → Bool) :
    ∃ run left, cs = run ++ left ∧ runLength test run = run.length ∧
      ∀ c ∈ left.head?, test c = false := by
  refine ⟨cs.takeWhile test, cs.dropWhile test, List.takeWhile_append_dropWhile.symm, ?_, ?_⟩
  · rw [runLength, List.takeWhile_idem]
  · intro c head
    have fails := List.head?_dropWhile_not test cs
    rw [head] at fails
    exact fails

/-! ## Words -/

section

variable {run : List Char} (all : runLength isWordChar run = run.length)

include all

theorem wordTail_run : wordTail run = run.length := by
  simp [wordTail, all]

theorem wordTail_run_cons {c : Char} (stops : isWordChar c = false) (more : List Char) :
    wordTail (run ++ c :: more) = if c = '?' ∨ c = '!' then run.length + 1 else run.length := by
  have length : runLength isWordChar (run ++ c :: more) = run.length := by
    rw [runLength_append, all]
    rintro _ ⟨⟩
    exact stops
  simp [wordTail, length]

end

theorem wordTail_append (breaks : Breaks rest) : wordTail (cs ++ rest) = wordTail cs := by
  have run : runLength isWordChar (cs ++ rest) = runLength isWordChar cs :=
    runLength_append (breaks.stops (by decide) (by decide))
  simp only [wordTail, run, drop_runLength]
  cases cs.drop (runLength isWordChar cs) with
  | cons c more => rfl
  | nil => cases breaks <;> rfl

variable (cs) in
theorem wordTail_take : wordTail (cs.take (wordTail cs)) = wordTail cs := by
  obtain ⟨run, left, rfl, all, stops⟩ := exists_run cs isWordChar
  cases left with
  | nil => rw [List.append_nil, wordTail_run all, List.take_length, wordTail_run all]
  | cons c more =>
      have stops : isWordChar c = false := stops c rfl
      rw [wordTail_run_cons all stops]
      split
      · rename_i suffix
        rw [List.take_length_add_append, List.take_succ_cons, List.take_zero,
          wordTail_run_cons all stops, if_pos suffix]
      · rw [List.take_left, wordTail_run all]

theorem mem_of_wordTail (whole : wordTail cs = cs.length) {c : Char} (mem : c ∈ cs) :
    isWordChar c = true ∨ c = '?' ∨ c = '!' := by
  obtain ⟨run, left, rfl, all, stops⟩ := exists_run cs isWordChar
  have inside : ∀ c ∈ run, isWordChar c = true :=
    List.takeWhile_eq_self_iff.mp ((List.takeWhile_prefix isWordChar).eq_of_length all)
  rcases List.mem_append.mp mem with mem | mem
  · exact .inl (inside c mem)
  · cases left with
    | nil => cases mem
    | cons first more =>
        rw [wordTail_run_cons all (stops first rfl), List.length_append, List.length_cons] at whole
        split at whole
        · rename_i suffix
          obtain rfl : more = [] := List.eq_nil_of_length_eq_zero (by omega)
          rw [List.mem_singleton.mp mem]
          exact .inr suffix
        · omega

variable (cs) in
theorem wordTail_le : wordTail cs ≤ cs.length := by
  simp only [wordTail]
  cases left : cs.drop (runLength isWordChar cs) with
  | nil => exact runLength_le cs isWordChar
  | cons c more =>
      have whole := length_drop_runLength left
      rw [List.length_cons] at whole
      dsimp only
      split <;> omega

/-! ## Numbers -/

section

variable {run : List Char} (all : runLength Char.isDigit run = run.length)

include all

theorem numberTail_run : numberTail run = (.integer, run.length) := by
  simp [numberTail, all]

/-- Digits end an integer, unless a point and a digit follow. -/
theorem numberTail_run_cons {c : Char} {more : List Char} (stops : c.isDigit = false)
    (noPart : ∀ d part, c = '.' → more = d :: part → d.isDigit = false) :
    numberTail (run ++ c :: more) = (.integer, run.length) := by
  have length : runLength Char.isDigit (run ++ c :: more) = run.length := by
    rw [runLength_append, all]
    rintro _ ⟨⟩
    exact stops
  simp only [numberTail, length, List.drop_left]
  split
  · rename_i d part e
    obtain ⟨rfl, rfl⟩ := List.cons.inj e
    simp [noPart d part rfl rfl]
  · rfl

theorem numberTail_run_point {d : Char} (isDigit : d.isDigit = true) (more : List Char) :
    numberTail (run ++ '.' :: d :: more)
      = (.float, run.length + 2 + runLength Char.isDigit more) := by
  have length : runLength Char.isDigit (run ++ '.' :: d :: more) = run.length := by
    rw [runLength_append, all]
    rintro _ ⟨⟩
    rfl
  simp only [numberTail, length, List.drop_left, isDigit, if_true]

end

theorem numberTail_append (breaks : Breaks rest) : numberTail (cs ++ rest) = numberTail cs := by
  have run (cs : List Char) : runLength Char.isDigit (cs ++ rest) = runLength Char.isDigit cs :=
    runLength_append (breaks.stops (by decide) (by decide))
  simp only [numberTail, run, drop_runLength]
  cases cs.drop (runLength Char.isDigit cs) with
  | nil => cases breaks <;> rfl
  | cons c more =>
      cases more with
      | nil =>
          by_cases dot : c = '.'
          · subst dot
            cases breaks <;> rfl
          · simp [dot]
      | cons d more =>
          by_cases dot : c = '.'
          · subst dot
            simp only [List.cons_append, run]
          · simp [dot]

variable (cs) in
theorem numberTail_take : numberTail (cs.take (numberTail cs).2) = numberTail cs := by
  obtain ⟨run, left, rfl, all, stops⟩ := exists_run cs Char.isDigit
  cases left with
  | nil => rw [List.append_nil, numberTail_run all, List.take_length, numberTail_run all]
  | cons c more =>
      have stops : c.isDigit = false := stops c rfl
      by_cases point : ∃ d part, c = '.' ∧ more = d :: part ∧ d.isDigit = true
      · obtain ⟨d, part, rfl, rfl, isDigit⟩ := point
        rw [numberTail_run_point all isDigit, Nat.add_assoc, List.take_length_add_append,
          Nat.add_comm 2, List.take_succ_cons, List.take_succ_cons,
          numberTail_run_point all isDigit]
        obtain ⟨run', left, rfl, all', stops'⟩ := exists_run part Char.isDigit
        have length := (runLength_append stops').trans all'
        rw [length, List.take_left, all', Nat.add_assoc, Nat.add_comm 2]
      · rw [numberTail_run_cons all stops]
        · rw [List.take_left, numberTail_run all]
        · intro d part dot e
          by_contra isDigit
          exact point ⟨d, part, dot, e, by simpa using isDigit⟩

variable (cs) in
theorem numberTail_le : (numberTail cs).2 ≤ cs.length := by
  simp only [numberTail]
  split
  · rename_i d more left
    have whole := length_drop_runLength left
    have run := runLength_le more Char.isDigit
    simp only [List.length_cons] at whole
    split
    · dsimp only
      omega
    · dsimp only
      omega
  · exact runLength_le cs Char.isDigit

/-! ## Signs, colons and comparisons -/

theorem signTail_append (breaks : Breaks rest) (operator : TokenKind) :
    signTail operator (cs ++ rest) = signTail operator cs := by
  cases cs with
  | nil => cases breaks <;> rfl
  | cons d more => simp only [List.cons_append, signTail, numberTail_append breaks]

variable (cs) in
theorem signTail_take (operator : TokenKind) :
    signTail operator (cs.take (signTail operator cs).2) = signTail operator cs := by
  cases cs with
  | nil => rfl
  | cons d more =>
      by_cases isDigit : d.isDigit = true
      · simp only [signTail, isDigit, if_true, List.take_succ_cons, numberTail_take]
      · simp only [signTail, isDigit, Bool.false_eq_true, if_false, List.take_zero]

variable (cs) in
theorem signTail_le (operator : TokenKind) : (signTail operator cs).2 ≤ cs.length := by
  cases cs with
  | nil => exact Nat.le_refl _
  | cons d more =>
      have number := numberTail_le more
      rw [signTail]
      split
      · exact Nat.succ_le_succ number
      · exact Nat.zero_le _

theorem colonTail_append (breaks : Breaks rest) : colonTail (cs ++ rest) = colonTail cs := by
  cases cs with
  | nil => cases breaks <;> rfl
  | cons c more => simp only [List.cons_append, colonTail, wordTail_append breaks]

variable (cs) in
theorem colonTail_take : colonTail (cs.take (colonTail cs).2) = colonTail cs := by
  cases cs with
  | nil => rfl
  | cons c more =>
      by_cases start : isWordStart c = true
      · simp only [colonTail, start, if_true, Nat.add_comm 1, List.take_succ_cons, wordTail_take]
      · simp only [colonTail, start, Bool.false_eq_true, if_false, List.take_zero]

variable (cs) in
theorem colonTail_le : (colonTail cs).2 ≤ cs.length := by
  cases cs with
  | nil => exact Nat.le_refl _
  | cons c more =>
      have word := wordTail_le more
      rw [colonTail]
      split
      · rw [List.length_cons]
        omega
      · exact Nat.zero_le _

theorem comparisonTail_append (breaks : Breaks rest) (alone withEqual : TokenKind) :
    comparisonTail alone withEqual (cs ++ rest) = comparisonTail alone withEqual cs := by
  cases cs with
  | nil => cases breaks <;> rfl
  | cons c more =>
      by_cases equal : c = '='
      · subst equal
        rfl
      · simp [comparisonTail, equal]

variable (cs) in
theorem comparisonTail_take (alone withEqual : TokenKind) :
    comparisonTail alone withEqual (cs.take (comparisonTail alone withEqual cs).2)
      = comparisonTail alone withEqual cs := by
  cases cs with
  | nil => rfl
  | cons c more =>
      by_cases equal : c = '='
      · subst equal
        rfl
      · simp [comparisonTail, equal]

variable (cs) in
theorem comparisonTail_le (alone withEqual : TokenKind) :
    (comparisonTail alone withEqual cs).2 ≤ cs.length := by
  unfold comparisonTail
  split
  · rw [List.length_cons]
    omega
  · exact Nat.zero_le _

/-! ## Strings -/

theorem doubleQuotedTail_cons {c : Char} (noQuote : c ≠ '"') (noBackslash : c ≠ '\\')
    (more : List Char) : doubleQuotedTail (c :: more)
      = ((doubleQuotedTail more).1, (doubleQuotedTail more).2 + 1) := by
  rw [doubleQuotedTail]
  · exact noQuote
  · exact fun backslash => absurd backslash noBackslash
  · exact fun _ _ backslash => absurd backslash noBackslash

theorem doubleQuotedTail_escape {c : Char} (noNewline : c ≠ '\n') (more : List Char) :
    doubleQuotedTail ('\\' :: c :: more)
      = ((doubleQuotedTail more).1, (doubleQuotedTail more).2 + 2) := by
  rw [doubleQuotedTail, if_neg noNewline]

/-- Induction on a text between double quotes: it goes on with a character, or with an
escape. -/
theorem doubleQuoted_induction {motive : List Char → Prop} (nil : motive [])
    (close : ∀ more, motive ('"' :: more)) (lone : motive ['\\'])
    (newline : ∀ more, motive ('\\' :: '\n' :: more))
    (escape : ∀ c more, c ≠ '\n' → motive more → motive ('\\' :: c :: more))
    (cons : ∀ c more, c ≠ '"' → c ≠ '\\' → motive more → motive (c :: more))
    (chars : List Char) : motive chars := by
  induction chars using doubleQuotedTail.induct with
  | case1 => exact nil
  | case2 more => exact close more
  | case3 => exact lone
  | case4 more => exact newline more
  | case5 c more noNewline _ _ _ ih => exact escape c more noNewline ih
  | case6 c more noQuote notLast noEscape _ _ _ ih =>
      refine cons c more noQuote ?_ ih
      rintro rfl
      cases more with
      | nil => exact notLast rfl rfl
      | cons next more => exact noEscape next more rfl rfl

theorem doubleQuotedTail_append (closed : (doubleQuotedTail cs).1 ≠ .openString) :
    doubleQuotedTail (cs ++ rest) = doubleQuotedTail cs := by
  induction cs using doubleQuoted_induction with
  | nil => exact absurd rfl closed
  | close more => rfl
  | lone => exact absurd rfl closed
  | newline more => exact absurd rfl closed
  | escape c more noNewline ih =>
      rw [doubleQuotedTail_escape noNewline] at closed
      rw [List.cons_append, List.cons_append, doubleQuotedTail_escape noNewline, ih closed,
        doubleQuotedTail_escape noNewline]
  | cons c more noQuote noBackslash ih =>
      have inside := doubleQuotedTail_cons noQuote noBackslash
      rw [inside] at closed
      rw [List.cons_append, inside, inside, ih closed]

variable (cs) in
theorem doubleQuotedTail_take :
    doubleQuotedTail (cs.take (doubleQuotedTail cs).2) = doubleQuotedTail cs := by
  induction cs using doubleQuoted_induction with
  | nil => rfl
  | close more => rfl
  | lone => rfl
  | newline more => rfl
  | escape c more noNewline ih =>
      rw [doubleQuotedTail_escape noNewline, List.take_succ_cons, List.take_succ_cons,
        doubleQuotedTail_escape noNewline, ih]
  | cons c more noQuote noBackslash ih =>
      have inside := doubleQuotedTail_cons noQuote noBackslash
      rw [inside, List.take_succ_cons, inside, ih]

variable (cs) in
theorem doubleQuotedTail_le : (doubleQuotedTail cs).2 ≤ cs.length := by
  fun_induction doubleQuotedTail cs with
  | _ => simp_all

theorem runLength_append_of_lt {test : Char → Bool} (more : List Char)
    (h : runLength test cs < cs.length) : runLength test (cs ++ more) = runLength test cs := by
  induction cs with
  | nil => exact absurd h (Nat.lt_irrefl 0)
  | cons c cs ih =>
      simp only [runLength, List.cons_append, List.takeWhile_cons] at ih h ⊢
      cases same : test c with
      | false => rfl
      | true =>
          simp only [same, ↓reduceIte, List.length_cons, Nat.add_lt_add_iff_right] at h
          exact congrArg Nat.succ (ih h)

theorem singleQuotedTail_append (closed : (singleQuotedTail cs).1 ≠ .openString) :
    singleQuotedTail (cs ++ rest) = singleQuotedTail cs := by
  have stops : runLength (fun c => c ≠ '\'') cs < cs.length := by
    by_cases lt : runLength (fun c => c ≠ '\'') cs < cs.length
    · exact lt
    · simp only [singleQuotedTail, if_neg lt] at closed
      exact absurd rfl closed
  have run := runLength_append_of_lt rest stops
  have whole : runLength (fun c => c ≠ '\'') cs < (cs ++ rest).length := by
    rw [List.length_append]
    omega
  simp only [singleQuotedTail, run, if_pos stops, if_pos whole]

variable (cs) in
theorem singleQuotedTail_take :
    singleQuotedTail (cs.take (singleQuotedTail cs).2) = singleQuotedTail cs := by
  obtain ⟨run, left, rfl, all, stops⟩ := exists_run cs fun c => c ≠ '\''
  cases left with
  | nil =>
      have unclosed : singleQuotedTail run = (.openString, run.length) := by
        simp only [singleQuotedTail, all, Nat.lt_irrefl, if_false]
      rw [List.append_nil, unclosed, List.take_length, unclosed]
  | cons c more =>
      have quoted (more : List Char) :
          singleQuotedTail (run ++ c :: more) = (.token .string, run.length + 1) := by
        have length : runLength (fun c => c ≠ '\'') (run ++ c :: more) = run.length := by
          rw [runLength_append, all]
          rintro _ ⟨⟩
          exact stops c rfl
        have longer : run.length < (run ++ c :: more).length := by simp
        simp only [singleQuotedTail, length, longer, if_true]
      rw [quoted, List.take_length_add_append, List.take_succ_cons, quoted]

variable (cs) in
theorem singleQuotedTail_le : (singleQuotedTail cs).2 ≤ cs.length := by
  have run := runLength_le cs (fun c => c ≠ '\'')
  simp only [singleQuotedTail]
  split
  · assumption
  · exact run

/-! ## Lexemes -/

/-- A lexeme does not look beyond a break, unless it is an open string or a blank; and
a line end belongs to no blank either. -/
theorem classify_append {c : Char} (breaks : Breaks rest)
    (closed : (classify c cs).1 ≠ .openString)
    (blank : (classify c cs).1 = .blank → ∀ d ∈ rest.head?, d = '\n') :
    classify c (cs ++ rest) = classify c cs := by
  by_cases double : c = '"'
  · subst double
    exact doubleQuotedTail_append closed
  by_cases single : c = '\''
  · subst single
    exact singleQuotedTail_append closed
  have word : (cs ++ rest).take (wordTail cs) = cs.take (wordTail cs) :=
    List.take_append_of_le_length (wordTail_le cs)
  have run {test : Char → Bool} (newline : test '\n' = false)
      (h : (classify c cs).1 = .blank) : runLength test (cs ++ rest) = runLength test cs := by
    refine runLength_append fun d head => ?_
    rw [blank h d head, newline]
  simp only [classify, wordTail_append breaks, word, numberTail_append breaks,
    signTail_append breaks, colonTail_append breaks, comparisonTail_append breaks] at run ⊢
  split
  · rename_i space
    rw [run (by decide) (by rw [if_pos space])]
  · split
    · rfl
    · split
      · rfl
      · split <;> first | rfl | contradiction | rw [run (by decide) (by simp_all)]

variable (cs) in
/-- A lexeme that is cut out of its text is the same lexeme. -/
theorem classify_take (c : Char) : classify c (cs.take (classify c cs).2) = classify c cs := by
  have run (test : Char → Bool) :
      runLength test (cs.take (runLength test cs)) = runLength test cs := by
    obtain ⟨run, left, rfl, all, stops⟩ := exists_run cs test
    have length := (runLength_append stops).trans all
    rw [length, List.take_left, all]
  by_cases space : isSpace c = true
  · simp only [classify, space, if_true, run]
  by_cases word : isWordStart c = true
  · simp only [classify, space, word, if_true, if_false, wordTail_take, List.take_take, min_self,
      Bool.false_eq_true]
  by_cases digit : c.isDigit = true
  · simp only [classify, space, word, digit, if_true, if_false, Bool.false_eq_true,
      classify.lift, numberTail_take]
  simp only [classify, space, word, digit, if_false, Bool.false_eq_true]
  split
  all_goals simp only [classify.lift, run, signTail_take, doubleQuotedTail_take,
    singleQuotedTail_take, colonTail_take, comparisonTail_take]

variable (cs) in
theorem classify_le (c : Char) : (classify c cs).2 ≤ cs.length := by
  have lifted {found : TokenKind × Nat} (h : found.2 ≤ cs.length) :
      (classify.lift found).2 ≤ cs.length := h
  unfold classify
  split
  · exact runLength_le cs isSpace
  · split
    · exact wordTail_le cs
    · split
      · exact lifted (numberTail_le cs)
      · split
        · exact runLength_le cs _
        · exact lifted (signTail_le cs _)
        · exact lifted (signTail_le cs _)
        · exact doubleQuotedTail_le cs
        · exact singleQuotedTail_le cs
        · exact lifted (colonTail_le cs)
        · exact lifted (comparisonTail_le cs _ _)
        · exact lifted (comparisonTail_le cs _ _)
        · exact lifted (comparisonTail_le cs _ _)
        all_goals exact Nat.zero_le _

/-- A lexeme that is one by itself. -/
def Alone (lexeme : Lexeme) : Prop :=
  classify lexeme.first lexeme.rest = (lexeme.cls, lexeme.rest.length)

/-- Each lexeme of a text is one by itself. -/
theorem alone_of_mem {chars : List Char} {lexeme : Lexeme} (mem : lexeme ∈ lexemes chars) :
    Alone lexeme := by
  induction chars using lexemes_induction with
  | nil => simp [lexemes_nil] at mem
  | cons c cs ih =>
      rw [lexemes_cons, List.mem_cons] at mem
      rcases mem with rfl | mem
      · show classify c (cs.take (classify c cs).2) = _
        rw [classify_take, List.length_take_of_le (classify_le cs c)]
      · exact ih mem

/-- A token that is one by itself is one in front of every break. -/
theorem Alone.lexemes_append {lexeme : Lexeme} {kind : TokenKind} (alone : Alone lexeme)
    (cls : lexeme.cls = .token kind) (breaks : Breaks rest) :
    lexemes (lexeme.chars ++ rest) = lexeme :: lexemes rest := by
  have found : classify lexeme.first lexeme.rest = (.token kind, lexeme.rest.length) := cls ▸ alone
  have here : classify lexeme.first (lexeme.rest ++ rest) = (.token kind, lexeme.rest.length) := by
    rw [← found]
    refine classify_append breaks ?_ ?_ <;> simp [found]
  rw [Lexeme.chars, List.cons_append, lexemes_cons, here, List.take_left, List.drop_left, ← cls]

end RubyReader.Lexer
