/-
# `Prompt` — lines that fail leave no trace

At the prompt the command answers line after line.  A line that is blank answers nothing, and
one that cannot be read only says why; behind either the variables are what they were.  It may
have added symbols, but no answer depends on these: a program is read in the same way whatever
symbols there are (`Session.parse_alike`), and written in the same way.  So without such a line
the command answers all other lines as before (`answers_of_silent`),

    with the line       > out ... >  > out ... >      err ... message err ...
    without it          > out ... >    out ... >      err ...         err ...

and what is written lacks one prompt and the message of that line (`Command.run_without_line`).
-/
import Mathlib
import RubyReader.Command.Run
import RubyReader.Proofs.Command.Typed
import RubyReader.Proofs.Relevance
import RubyReader.Proofs.Trees

namespace RubyReader

/-! ## Sessions with the same variables -/

namespace Session

variable {session other : Session}

/-- In sessions with the same variables an input has the same outcome, and leaves the same
variables. -/
theorem parse_alike (same : other.locals = session.locals) (text : String) :
    (other.parse text).1 = (session.parse text).1 ∧
      (other.parse text).2.locals = (session.parse text).2.locals := by
  unfold parse
  dsimp only
  cases (lex text).report.first? with
  | some error => exact ⟨rfl, same⟩
  | none =>
      have start : (Parser.ofTokens (lex text).tokens session.locals session.symbols).Matching
          (some nestingLimit) (Parser.Written (lex text).tokens)
          (.ofTokens (lex text).tokens session.locals other.symbols) :=
        Parser.matching_ofTokens _ _ _ fun _ _ _ => Iff.rfl
      obtain ⟨results, parallel⟩ := Parser.program_parallel start
      obtain ⟨names, grown, grown'⟩ := parallel.declared
      have scopes := Names.ext (grown'.trans grown.symm)
      rw [same]
      revert results scopes
      generalize (Parser.ofTokens (lex text).tokens session.locals session.symbols).program = one
      generalize (Parser.ofTokens (lex text).tokens session.locals other.symbols).program = another
      obtain ⟨result, q⟩ := one
      obtain ⟨result', q'⟩ := another
      rintro rfl scopes
      cases result' with
      | ok node => exact ⟨rfl, scopes⟩
      | error error => exact ⟨rfl, rfl⟩

end Session

namespace Command

/-! ## Answers -/

/-- What a line makes the command write to either output. -/
structure Answer where
  stdout : String
  stderr : String
deriving DecidableEq

/-- What answers write to the one output, each behind a prompt. -/
def prompted (answers : List Answer) : String :=
  String.join (answers.map fun answer => prompt ++ answer.stdout)

/-- What answers write to the other output. -/
def complaints (answers : List Answer) : String := String.join (answers.map Answer.stderr)

theorem prompted_cons (answer : Answer) (rest : List Answer) :
    prompted (answer :: rest) = prompt ++ answer.stdout ++ prompted rest := String.join_cons

theorem complaints_cons (answer : Answer) (rest : List Answer) :
    complaints (answer :: rest) = answer.stderr ++ complaints rest := String.join_cons

theorem prompted_append (some more : List Answer) :
    prompted (some ++ more) = prompted some ++ prompted more := by
  rw [prompted, List.map_append, String.join_append]
  rfl

theorem complaints_append (some more : List Answer) :
    complaints (some ++ more) = complaints some ++ complaints more := by
  rw [complaints, List.map_append, String.join_append]
  rfl

section Lines

variable [Styling] (format : Format) (colours : Bool) {session other after : Session}
  {line : String}

/-! ## One line -/

/-- What is written for a tree. -/
def shown (node : Node) : String :=
  match format with
  | .tree => node.outline.block ++ "\n"
  | .sexp => node.tagged.pretty colours ++ "\n"

/-- A program that is read is shown, whatever symbols there are. -/
theorem render_of_parse {node : Node} (read : session.parse line = (.ok node, after)) :
    ∃ last, render format colours session line = (.ok (shown format colours node), last) ∧
      last.locals = after.locals := by
  cases format with
  | tree => exact ⟨after, by rw [render, read]; rfl, rfl⟩
  | sexp =>
      obtain ⟨_, q, program, _⟩ := Session.parse_eq_ok_iff.mp read
      obtain ⟨nodes, position, rfl, expressions⟩ := Parser.allWellFormed_of_program program
      obtain ⟨symbols, written⟩ := Node.sexp_eq_ok_iff.mpr
        (⟨expressions.writable, rfl⟩ : (Node.block nodes position).Writable ∧ _)
      refine ⟨{ after with symbols }, ?_, rfl⟩
      rw [render, read]
      dsimp only
      rw [Session.toSexp, written]
      rfl

theorem render_of_error {error : ParseError} (failed : session.parse line = (.error error, after)) :
    render format colours session line = (.error error, after) := by
  rw [render, failed]

/-- In sessions with the same variables a line makes the command write the same, and leaves
the same variables. -/
theorem runLine_alike (same : other.locals = session.locals) (line : String) :
    (runLine format colours other line).1 = (runLine format colours session line).1 ∧
      (runLine format colours other line).2.1 = (runLine format colours session line).2.1 ∧
      (runLine format colours other line).2.2.locals
        = (runLine format colours session line).2.2.locals := by
  obtain ⟨results, scopes⟩ := Session.parse_alike same line
  rcases read : session.parse line with ⟨result, after⟩
  rcases read' : other.parse line with ⟨result', after'⟩
  rw [read, read'] at results scopes
  unfold runLine
  split
  · exact ⟨rfl, rfl, same⟩
  · cases result with
    | ok node =>
        obtain rfl : result' = .ok node := results
        obtain ⟨last, written, kept⟩ := render_of_parse format colours read
        obtain ⟨last', written', kept'⟩ := render_of_parse format colours read'
        rw [written, written']
        exact ⟨rfl, rfl, kept'.trans (scopes.trans kept.symm)⟩
    | error error =>
        obtain rfl : result' = .error error := results
        rw [render_of_error _ _ read, render_of_error _ _ read']
        exact ⟨rfl, rfl, scopes⟩

/-! ## Lines one after the other

Of a session only the variables count for an answer, so lines are answered alike in sessions
that have the same. -/

/-- The answers to lines, each in the session that those before it leave. -/
def answers (session : Session) : List String → List Answer
  | [] => []
  | line :: rest =>
    let (out, err, after) := runLine format colours session line
    ⟨out, err⟩ :: answers after rest

def sessionAfter (session : Session) : List String → Session
  | [] => session
  | line :: rest => sessionAfter (runLine format colours session line).2.2 rest

/-- A text is answered line by line, and in the end there is one more prompt. -/
theorem runLines_eq (session : Session) (lines : List String) :
    runLines format colours false session lines
      = ⟨0, prompted (answers format colours session lines) ++ prompt ++ "\n",
          complaints (answers format colours session lines)⟩ := by
  induction lines generalizing session with
  | nil => rfl
  | cons line rest ih =>
      rw [runLines, answers]
      dsimp only
      rw [ih, prompted_cons, complaints_cons]
      simp only [String.append_assoc]

theorem answers_append (session : Session) (lines more : List String) :
    answers format colours session (lines ++ more)
      = answers format colours session lines
        ++ answers format colours (sessionAfter format colours session lines) more := by
  induction lines generalizing session with
  | nil => rfl
  | cons line rest ih =>
      rw [List.cons_append, answers, answers]
      dsimp only
      rw [ih]
      rfl

theorem answers_alike (same : other.locals = session.locals) (lines : List String) :
    answers format colours other lines = answers format colours session lines := by
  induction lines generalizing session other with
  | nil => rfl
  | cons line rest ih =>
      obtain ⟨out, err, scopes⟩ := runLine_alike format colours same line
      rw [answers, answers]
      dsimp only
      rw [out, err, ih scopes]

/-! ## Lines without an effect -/

/-- A line that writes only a message: none if it is blank, and otherwise why it cannot be
read. -/
inductive Silent (session : Session) (line : String) : String → Prop
  | blank : isBlankLine line = true → Silent session line ""
  | unread {error : ParseError} {after : Session} : isBlankLine line = false →
      session.parse line = (.error error, after) →
      Silent session line (failure colours error)

/-- The message is the only answer, and the variables stay. -/
theorem Silent.runLine_eq {message : String} (silent : Silent colours session line message) :
    ∃ after, runLine format colours session line = ("", message, after) ∧
      after.locals = session.locals := by
  cases silent with
  | blank blank => exact ⟨session, by rw [runLine, if_pos blank], rfl⟩
  | @unread error after nonblank failed =>
      refine ⟨after, ?_, Session.locals_of_error failed⟩
      rw [runLine, nonblank, if_neg Bool.false_ne_true, render_of_error _ _ failed]

/-- Only a line that cannot be read is complained about. -/
theorem silent_of_complaint {complaint : String}
    (said : (runLine format colours session line).2.1 = complaint) (some : complaint ≠ "") :
    Silent colours session line complaint := by
  unfold runLine at said
  split at said
  · exact absurd said.symm some
  · rename_i nonblank
    rcases read : session.parse line with ⟨result, after⟩
    cases result with
    | ok node =>
        obtain ⟨last, written, -⟩ := render_of_parse format colours read
        rw [written] at said
        exact absurd said.symm some
    | error error =>
        rw [render_of_error format colours read] at said
        exact said ▸ .unread (Bool.eq_false_of_not_eq_true nonblank) read

/-- All other lines are answered as if that line were not there. -/
theorem answers_of_silent {message : String} {front : List String}
    (silent : Silent colours (sessionAfter format colours session front) line message)
    (back : List String) :
    let behind := answers format colours (sessionAfter format colours session front) back
    answers format colours session (front ++ line :: back)
        = answers format colours session front ++ ⟨"", message⟩ :: behind ∧
      answers format colours session (front ++ back)
        = answers format colours session front ++ behind := by
  intro behind
  obtain ⟨after, ran, kept⟩ := silent.runLine_eq format
  refine ⟨?_, answers_append format colours session front back⟩
  rw [answers_append, answers, ran]
  exact congrArg (_ ++ ⟨"", message⟩ :: ·) (answers_alike format colours kept back)

open TypedLines in
/-- At the prompt a line that is blank or cannot be read costs one prompt and its message:
without it the command writes just the rest, and ends with the same exit code. -/
theorem run_without_line {args : List String} {options : Options} {colours : Bool}
    {readFile : String → Except FileError String} {front line ending back message : String}
    (asked : Options.ofArgs args = .ok options) (prompting : options.input = .prompt)
    (isLine : IsLine front line ending back) :
    let coloured := colours && options.colours
    let session := sessionAfter options.format coloured .new (ofText front).lines
    let before := answers options.format coloured .new (ofText front).lines
    let behind := answers options.format coloured session (ofText back).lines
    let result (text : String) := run args colours (ofBytes text.toUTF8) readFile
    Silent coloured session (lineRead line ending) message →
      result (front ++ line ++ ending ++ back)
          = ⟨0, prompted before ++ prompt ++ prompted behind ++ prompt ++ "\n",
              complaints before ++ message ++ complaints behind⟩ ∧
        result (front ++ back)
          = ⟨0, prompted before ++ prompted behind ++ prompt ++ "\n",
              complaints before ++ complaints behind⟩ := by
  intro coloured session before behind result silent
  have answered (text : String) :
      result text = runLines options.format coloured false .new (ofText text).lines := by
    simp only [result, run, asked, perform, prompting, ofBytes_toUTF8]
    rfl
  obtain ⟨including, without⟩ := answers_of_silent options.format _ silent (ofText back).lines
  constructor
  · rw [answered, lines_of_isLine isLine, runLines_eq, including, prompted_append, prompted_cons,
      complaints_append, complaints_cons]
    simp only [String.append_empty, String.append_assoc]
    rfl
  · rw [answered, lines_append isLine.begins, runLines_eq, without, prompted_append,
      complaints_append]

end Lines

/-- What is said about an assignment without a value. -/
def unfinishedComplaint : String :=
  "syntax error: unexpected end-of-input; expected expression at line 1, column 6\n"

open TypedLines in
/-- An assignment that is not finished, behind one that is: what it would assign is no
variable behind it. -/
theorem run_without_line_of_unfinished :
    Options.ofArgs ["--no-color"] = .ok ⟨.prompt, .sexp, false⟩ ∧
      IsLine "x = 1\n" "y = (\r" "\n" "y" ∧
      Silent false (sessionAfter .sexp false .new (ofText "x = 1\n").lines)
        (lineRead "y = (\r" "\n") unfinishedComplaint ∧
      run ["--no-color"] true (ofBytes ("x = 1\n" ++ "y = (\r" ++ "\n" ++ "y").toUTF8)
          (fun _ => .error .missing)
        = ⟨0, "> s(:block, s(:lasgn, :x, s(:lit, 1)))\n> > s(:block, s(:call, nil, :y))\n> \n",
            unfinishedComplaint⟩ ∧
      run ["--no-color"] true (ofBytes ("x = 1\n" ++ "y").toUTF8) (fun _ => .error .missing)
        = ⟨0, "> s(:block, s(:lasgn, :x, s(:lit, 1)))\n> s(:block, s(:call, nil, :y))\n> \n",
            ""⟩ := by
  have asked : Options.ofArgs ["--no-color"] = .ok ⟨.prompt, .sexp, false⟩ := by decide +kernel
  have isLine : IsLine "x = 1\n" "y = (\r" "\n" "y" := by
    have last : "x = 1\n".toList.getLast? = some '\n' := by decide +kernel
    refine ⟨fun c mem => ?_, by decide +kernel, .inl rfl⟩
    rw [last] at mem
    exact (Option.some.inj mem).symm
  have silent : Silent false (sessionAfter .sexp false .new (ofText "x = 1\n").lines)
      (lineRead "y = (\r" "\n") unfinishedComplaint :=
    silent_of_complaint .sexp false (by decide +kernel) (by decide +kernel)
  obtain ⟨including, without⟩ :=
    @run_without_line Styling.sequences ["--no-color"] ⟨.prompt, .sexp, false⟩ true
      (fun _ => .error .missing) "x = 1\n" "y = (\r" "\n" "y" unfinishedComplaint asked rfl isLine
      silent
  exact ⟨asked, isLine, silent, including.trans (by decide +kernel),
    without.trans (by decide +kernel)⟩

end Command

end RubyReader
