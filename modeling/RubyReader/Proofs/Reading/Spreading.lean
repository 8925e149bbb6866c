/-
# `Spreading` — line ends where more is owed

Behind an operator, an opening parenthesis, a comma or another line end, and in front of a
closing parenthesis or a colon, line ends are passed over wherever they stand.  So tokens may
be spread over more lines there (`Spread`), and are read again as the same tree.
-/
import RubyReader.Proofs.Reading.Simulation

namespace RubyReader

/-- Behind tokens passed, others, and the same at any places, with line ends between them where
lines may end. -/
inductive Spread : (before tokens tokens' : List Token) → Prop
  | nil {before : List Token} : Spread before [] []
  | keep {before rest rest' : List Token} {token : Token} (place : Position) :
      Spread (token :: before) rest rest' →
      Spread before (token :: rest) ({ token with position := place } :: rest')
  | line {before tokens tokens' : List Token} {line : Token} : line.kind = .newline →
      MayBreak before tokens → Spread before tokens tokens' → Spread before tokens (line :: tokens')

def Respelling.spread : Respelling :=
  ⟨nowhere, nowhere, True, False, [], [], Token.Closes.head?_nil, Token.Closes.head?_nil⟩

theorem Spread.respelled {before tokens tokens' : List Token} (h : Spread before tokens tokens') :
    Respelled .spread before tokens tokens' := by
  induction h with
  | nil => exact .tail
  | keep place _ ih => exact .keep place rfl ih
  | line newline breaks _ ih => exact .line trivial newline breaks ih

variable {limit : Option Nat} {p p' q : Parser}

/-- Statements are read again on more lines. -/
theorem Reads.statements_spread {terminator : TokenKind} {nodes : List Node}
    (h : Reads limit (.statements terminator) p nodes q)
    (plain : terminator.sign? = none ∧ terminator.isNumber = false)
    (same : Beside .spread p p') :
    ∃ nodes' q', Reads limit (.statements terminator) p' nodes' q' ∧
      Node.AllAlike nodes' nodes ∧ InStep .spread q q' := by
  obtain ⟨q', ⟨nodes', reads, agree⟩, behind⟩ :=
    h.simulated plain (Nat.zero_le _) (Nat.zero_le _) p' same
  exact ⟨nodes', q', reads, agree, behind⟩

/-- So is what continues an expression. -/
theorem Reads.continuation_spread {left left' node : Node} {min : Precedence}
    (h : Reads limit (.continuation left min) p node q) (settled : p.Settled)
    (like : left'.Alike left) (same : Abreast .spread p p') :
    ∃ node' q', Reads limit (.continuation left' min) p' node' q' ∧ node'.Alike node ∧
      Abreast .spread q q' := by
  obtain ⟨q', ⟨node', reads, agree⟩, behind⟩ :=
    h.simulated (s := .spread) settled left' like (Nat.zero_le _) p' same
  exact ⟨node', q', reads, agree, behind⟩

end RubyReader
