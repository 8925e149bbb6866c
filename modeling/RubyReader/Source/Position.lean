/-
# `Position` — places in a text, by line and column
-/
namespace RubyReader

/-- A line and a column, both counted from one. -/
structure Position where
  line : Nat
  column : Nat
deriving DecidableEq

namespace Position

def start : Position := ⟨1, 1⟩

def text (position : Position) : String :=
  "line " ++ toString position.line ++ ", column " ++ toString position.column

/-- The reading order: by line, and by column within a line. -/
def Before (p q : Position) : Prop := p.line < q.line ∨ p.line = q.line ∧ p.column < q.column

instance (p q : Position) : Decidable (p.Before q) :=
  inferInstanceAs (Decidable (_ ∨ _ ∧ _))

end Position
end RubyReader
