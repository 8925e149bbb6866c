/-
# `Printed` — a tree as tokens, with all its parentheses

    1   "s"   :s   true   x
    name ( args )         receiver . name ( args )        ( left + right )
    ( x = value )         ( condition ? one : other )
    ( def name ( params ) newline  statement newline …  end )

What is between two tokens never has to be guessed from how tightly they bind.  How
numbers are written is left open: any tokens that have their values will do
(`Denotes`), and there are some for all numbers (`denotes_token`).
-/
import RubyReader.Proofs.Number.Written
import RubyReader.Proofs.Reading.Invariants
import RubyReader.Proofs.Tree.WellFormed

namespace RubyReader

/-! ## Numbers as tokens -/

/-- A way to write numbers: every one as a token that has its value. -/
def Denotes (write : Value → Token) : Prop :=
  ∀ value, value.IsNumber → (write value).numeral? (write value).literal = some value

/-- A number as a token, signed if it is negative. -/
def Value.token : Value → Token
  | int n => .new .integer (integerText n) .start
  | float x => .new .float x.text .start
  | _ => .endOfInput .start

theorem denotes_token : Denotes Value.token := by
  intro value isNumber
  cases value with
  | int n =>
      show (readInteger? (integerText n)).map Value.int = _
      rw [readInteger?_integerText, Option.map_some]
  | float x =>
      show (readFloat? x.text).map Value.float = _
      rw [readFloat?_text isNumber, Option.map_some]
  | _ => cases isNumber

/-! ## Printing -/

namespace Node

/-- A token of the language, at no place. -/
def mark (kind : TokenKind) (text : String) : Token := .new kind text .start

@[simp] theorem kind_mark (kind : TokenKind) (text : String) : (mark kind text).kind = kind := rfl

variable (write : Value → Token)

mutual

/-- The tokens of an expression.  An operator stands between its operands, the second of
which is a list of one argument. -/
def printed : Node → List Token
  | assignment target value _ =>
    mark .lparen "(" :: target.token :: mark .assign "=" :: (printed value ++ [mark .rparen ")"])
  | call (.implicitSelf _) message args _ =>
    mark .identifier message.name :: mark .lparen "(" :: arguments args
  | call receiver message args _ =>
    match TokenKind.ofOperator? message.name with
    | some kind =>
      mark .lparen "(" :: (printed receiver ++ mark kind message.name :: arguments args)
    | none =>
      printed receiver ++
        mark .dot "." :: mark .identifier message.name :: mark .lparen "(" :: arguments args
  | definition name params body _ =>
    mark .lparen "(" :: mark .kwDef "def" :: name.token :: mark .lparen "(" ::
      (arguments params ++ mark .newline "\n" ::
        (lines body ++ [mark .kwEnd "end", mark .rparen ")"]))
  | identifier name _ => [name.token]
  | conditional condition ifTrue ifFalse _ =>
    mark .lparen "(" :: (printed condition ++ mark .question "?" ::
      (printed ifTrue ++ mark .colon ":" :: (printed ifFalse ++ [mark .rparen ")"])))
  | literal value _ => [write value]
  | string value _ => [mark .string (value.str?.getD "")]
  | symbol value _ => [mark .symbol ((value.sym?.map Symbol.name).getD "")]
  | falseLiteral _ => [mark .kwFalse "false"]
  | nilLiteral _ => [mark .kwNil "nil"]
  | trueLiteral _ => [mark .kwTrue "true"]
  | block .. | implicitSelf _ => []

/-- Expressions between commas, up to a closing parenthesis. -/
def arguments : List Node → List Token
  | [] => [mark .rparen ")"]
  | node :: rest => printed node ++ match rest with
    | [] => [mark .rparen ")"]
    | _ :: _ => mark .comma "," :: arguments rest

/-- Statements, each with a line end behind it. -/
def lines : List Node → List Token
  | [] => []
  | node :: rest => printed node ++ mark .newline "\n" :: lines rest

end

/-- Statements with a line end between two of them. -/
def separated : List Node → List Token
  | [] => []
  | node :: rest => printed write node ++ match rest with
    | [] => []
    | _ :: _ => mark .newline "\n" :: separated rest

/-! ## What stands in parentheses -/

variable {write} {receiver value condition ifTrue ifFalse right node : Node} {message : Symbol}
  {args params body nodes : List Node} {name target : Identifier} {kind : TokenKind}
  {position : Position}

theorem printed_assignment : printed write (.assignment target value position) =
    mark .lparen "(" ::
      (target.token :: mark .assign "=" :: printed write value ++ [mark .rparen ")"]) := by
  rw [printed]
  rfl

theorem printed_send (explicit : receiver.type ≠ .implicitSelf)
    (named : TokenKind.ofOperator? message.name = none) :
    printed write (.call receiver message args position) = printed write receiver ++
      mark .dot "." :: mark .identifier message.name :: mark .lparen "(" ::
        arguments write args := by
  rw [printed, named]
  rintro place rfl
  exact explicit rfl

theorem printed_operation (explicit : receiver.type ≠ .implicitSelf)
    (operator : TokenKind.ofOperator? message.name = some kind) :
    printed write (.call receiver message [right] position) = mark .lparen "(" ::
      (printed write receiver ++ mark kind message.name :: printed write right ++
        [mark .rparen ")"]) := by
  rw [printed, operator]
  · simp [arguments]
  · rintro place rfl
    exact explicit rfl

theorem printed_definition : printed write (.definition name params body position) =
    mark .lparen "(" :: (mark .kwDef "def" :: name.token :: mark .lparen "(" ::
      (arguments write params ++ mark .newline "\n" :: (lines write body ++
        [mark .kwEnd "end"])) ++ [mark .rparen ")"]) := by
  rw [printed]
  simp

theorem printed_conditional : printed write (.conditional condition ifTrue ifFalse position) =
    mark .lparen "(" :: (printed write condition ++ mark .question "?" ::
      (printed write ifTrue ++ mark .colon ":" :: printed write ifFalse) ++
        [mark .rparen ")"]) := by
  rw [printed]
  simp

/-! ## The last token -/

theorem arguments_concat (write : Value → Token) (nodes : List Node) :
    ∃ front, arguments write nodes = front ++ [mark .rparen ")"] := by
  induction nodes with
  | nil => exact ⟨[], by rw [arguments]; rfl⟩
  | cons node rest ih =>
      cases rest with
      | nil => exact ⟨printed write node, by rw [arguments]⟩
      | cons next rest =>
          obtain ⟨front, e⟩ := ih
          refine ⟨printed write node ++ mark .comma "," :: front, ?_⟩
          rw [arguments, e, List.append_assoc]
          rfl

/-- The last token of a tree does not end the input. -/
theorem printed_concat (denotes : Denotes write) (wellFormed : node.WellFormed) :
    ∃ front last, printed write node = front ++ [last] ∧ last.kind ≠ .eof := by
  cases node with
  | assignment => exact ⟨_ :: _, _, printed_assignment, by simp⟩
  | call receiver message args position =>
      obtain ⟨front, closing⟩ := arguments_concat write args
      obtain ⟨self | expression, -, messages⟩ := wellFormed
      · obtain ⟨place, rfl⟩ := exists_implicitSelf self
        refine ⟨mark .identifier message.name :: mark .lparen "(" :: front, mark .rparen ")", ?_,
          by simp⟩
        rw [printed, closing]
        rfl
      · cases operator : TokenKind.ofOperator? message.name with
        | none =>
            refine ⟨printed write receiver ++ mark .dot "." :: mark .identifier message.name ::
              mark .lparen "(" :: front, mark .rparen ")", ?_, by simp⟩
            rw [printed_send expression.explicit operator, closing, List.append_assoc]
            rfl
        | some kind =>
            rw [operator] at messages
            obtain ⟨right, rfl⟩ := List.length_eq_one_iff.mp messages.2
            exact ⟨_ :: _, _, printed_operation expression.explicit operator, by simp⟩
  | definition => exact ⟨_ :: _, _, printed_definition, by simp⟩
  | identifier name => exact ⟨[], name.token, rfl, by rw [wellFormed]; decide⟩
  | conditional => exact ⟨_ :: _, _, printed_conditional, by simp⟩
  | literal value =>
      refine ⟨[], write value, by rw [printed]; rfl, ?_⟩
      rcases Token.kind_of_numeral (denotes value wellFormed) with kind | kind <;> simp [kind]
  | string | symbol | falseLiteral | nilLiteral | trueLiteral => exact ⟨[], _, rfl, by simp⟩
  | block | implicitSelf => cases wellFormed

theorem separated_concat (denotes : Denotes write) (wellFormed : AllWellFormed (node :: nodes)) :
    ∃ front last, separated write (node :: nodes) = front ++ [last] ∧ last.kind ≠ .eof := by
  induction nodes generalizing node with
  | nil =>
      obtain ⟨front, last, e, goesOn⟩ := printed_concat denotes wellFormed.1
      exact ⟨front, last, by rw [separated, e, List.append_nil], goesOn⟩
  | cons next nodes ih =>
      obtain ⟨front, last, e, goesOn⟩ := ih wellFormed.2
      refine ⟨printed write node ++ mark .newline "\n" :: front, last, ?_, goesOn⟩
      rw [separated, e, List.append_assoc]
      rfl

end Node

end RubyReader
