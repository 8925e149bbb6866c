/-
# `Gluing` — a sign and its digits, as two tokens or as one

A sign that is followed by the digits of a number may be glued to them.  Where the two tokens
are an operator and the beginning of its right operand, the one token is a signed number, which
continues what stands before it with the same message; the operand is then not opened as an
expression, but its digits are continued as the expression would have been.  Nothing here looks
at places, and of the tokens that are not glued all but these are kept.
-/
import RubyReader.Proofs.Reading.Simulation

namespace RubyReader

/-- Tokens, and the same tokens at any places, with some of the signs in front of digits
glued to them. -/
inductive Glued : List Token → List Token → Prop
  | nil : Glued [] []
  | keep {token : Token} {rest rest' : List Token} (place : Position) :
      Glued rest rest' → Glued (token :: rest) ({ token with position := place } :: rest')
  | glue {sign number : Token} {text : String} {rest rest' : List Token} (place : Position) :
      sign.kind.sign? = some text → number.kind.isNumber = true → number.signed = false →
      Glued rest rest' →
      Glued (sign :: number :: rest) (.new number.kind (text ++ number.literal) place :: rest')

def Respelling.glued : Respelling :=
  ⟨nowhere, nowhere, False, True, [], [], Token.Closes.head?_nil, Token.Closes.head?_nil⟩

theorem Glued.respelled {before tokens tokens' : List Token} (h : Glued tokens tokens') :
    Respelled .glued before tokens tokens' := by
  induction h generalizing before with
  | nil => exact .tail
  | keep place _ ih => exact .keep place rfl ih
  | glue place signs isNumber unsigned _ ih =>
      exact .glue place trivial signs isNumber unsigned rfl rfl ih

/-- Statements are read again with some of their signs glued. -/
theorem Reads.statements_glued {limit : Option Nat} {p p' q : Parser} {nodes : List Node}
    (h : Reads limit (.statements .eof) p nodes q)
    (glued : Glued p.cursor.upcoming p'.cursor.upcoming) (scope : p'.scope = p.scope)
    (depth : p'.depth ≤ p.depth) :
    ∃ nodes' q', Reads limit (.statements .eof) p' nodes' q' ∧ Node.AllAlike nodes' nodes ∧
      q'.scope = q.scope := by
  obtain ⟨q', ⟨nodes', reads, agree⟩, behind⟩ :=
    h.simulated (by decide) (Nat.zero_le _) (Nat.zero_le _) p' ⟨glued.respelled, scope, depth⟩
  exact ⟨nodes', q', reads, agree, behind.scope_eq⟩

end RubyReader
