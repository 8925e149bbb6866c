/-
# `WellFormed` — the trees that programs stand for

A tree stands for an expression when its parts are what their places ask for: the
implicit self is only ever a receiver, a block only ever a program, an operator has a
receiver and one argument, the leaves hold values of their own kind.  It is `Scoped`
in a scope when its names are what the scope at their place makes of them, in source
order; that says nothing of how it was written.  Its height counts the steps from the
root to the leaf that is farthest.
-/
import RubyReader.Proofs.Scope
import RubyReader.Token.Lexer

namespace RubyReader

/-- The operator with a name. -/
def TokenKind.ofOperator? (name : String) : Option TokenKind :=
  all.find? fun kind => kind.operator? = some name

theorem TokenKind.operator?_of_ofOperator? {name : String} {kind : TokenKind}
    (h : ofOperator? name = some kind) : kind.operator? = some name := by
  simpa using List.find?_some h

/-- A text that is a name as a whole, and no other word. -/
def IsName (text : String) : Prop :=
  ∃ c cs, text.toList = c :: cs ∧ Lexer.classify c cs = (.token .identifier, cs.length)

/-- A value that a literal may hold: an integer, or a float that is a number. -/
def Value.IsNumber : Value → Prop
  | int _ => True
  | float x => x.isNaN = false
  | _ => False

namespace Node

/-- A parameter of a method: a name that is marked as local. -/
def IsParameter : Node → Prop
  | identifier name _ => name.token.kind = .identifier ∧ name.isLocal = true
  | _ => False

mutual

/-- Whether a tree stands for an expression. -/
def WellFormed : Node → Prop
  | assignment target value _ => target.token.kind = .identifier ∧ WellFormed value
  | call receiver message args _ =>
    (receiver.type = .implicitSelf ∨ WellFormed receiver) ∧ AllWellFormed args ∧
      match TokenKind.ofOperator? message.name with
      | some _ => receiver.type ≠ .implicitSelf ∧ args.length = 1
      | none => IsName message.name
  | definition name params body _ =>
    name.token.kind = .identifier ∧ (∀ param ∈ params, param.IsParameter) ∧
      (params.filterMap parameterName?).Nodup ∧ AllWellFormed body
  | identifier name _ => name.token.kind = .identifier
  | conditional condition ifTrue ifFalse _ =>
    WellFormed condition ∧ WellFormed ifTrue ∧ WellFormed ifFalse
  | literal value _ => value.IsNumber
  | string value _ => ∃ text, value = .str text
  | symbol value _ => ∃ symbol, value = .sym symbol
  | falseLiteral _ | nilLiteral _ | trueLiteral _ => True
  | block .. | implicitSelf _ => False

def AllWellFormed : List Node → Prop
  | [] => True
  | node :: rest => WellFormed node ∧ AllWellFormed rest

end

mutual

/-- Whether the names in a tree are what the scope at their place makes of them: a target
is local iff its name is in scope, and is from the value on; a name is a variable in
scope; a method starts from its parameters, and leaves nothing behind. -/
def Scoped : Names → Node → Prop
  | scope, assignment target value _ =>
    (target.isLocal = true ↔ target.name ∈ scope) ∧ Scoped (scope.insert target.name) value
  | scope, block nodes _ => AllScoped scope nodes
  | scope, call receiver _ args _ =>
    Scoped scope receiver ∧ AllScoped (scope.insertAll receiver.assignedNames) args
  | _, definition name params body _ =>
    name.isLocal = false ∧ AllScoped (.ofList (params.filterMap parameterName?)) body
  | scope, identifier name _ => name.isLocal = true ∧ name.name ∈ scope
  | scope, conditional condition ifTrue ifFalse _ =>
    Scoped scope condition ∧ Scoped (scope.insertAll condition.assignedNames) ifTrue ∧
      Scoped ((scope.insertAll condition.assignedNames).insertAll ifTrue.assignedNames) ifFalse
  | _, falseLiteral _ | _, implicitSelf _ | _, literal .. | _, nilLiteral _ | _, string ..
  | _, symbol .. | _, trueLiteral _ => True

def AllScoped : Names → List Node → Prop
  | _, [] => True
  | scope, node :: rest => Scoped scope node ∧ AllScoped (scope.insertAll node.assignedNames) rest

end

mutual

/-- The number of steps from the root of a tree to its farthest leaf. -/
def height : Node → Nat
  | assignment _ value _ => height value + 1
  | block nodes _ => heightBelow nodes
  | call receiver _ args _ => max (height receiver + 1) (heightBelow args)
  | definition _ params body _ => max (heightBelow params) (heightBelow body)
  | conditional condition ifTrue ifFalse _ =>
    max (height condition + 1) (max (height ifTrue + 1) (height ifFalse + 1))
  | falseLiteral _ | identifier .. | implicitSelf _ | literal .. | nilLiteral _ | string ..
  | symbol .. | trueLiteral _ => 0

def heightBelow : List Node → Nat
  | [] => 0
  | node :: rest => max (height node + 1) (heightBelow rest)

end

/-! ## Parameters and calls -/

theorem IsParameter.exists_name {param : Node} (h : param.IsParameter) :
    ∃ name, param.parameterName? = some name := by
  cases param with
  | identifier name position => exact ⟨name.name, rfl⟩
  | _ => cases h

theorem exists_implicitSelf {node : Node} (h : node.type = .implicitSelf) :
    ∃ place, node = .implicitSelf place := by
  cases node with
  | implicitSelf place => exact ⟨place, rfl⟩
  | _ => cases h

theorem WellFormed.explicit {node : Node} (h : node.WellFormed) : node.type ≠ .implicitSelf := by
  cases node with
  | implicitSelf => exact absurd h not_false
  | _ => exact NodeType.noConfusion

theorem WellFormed.named {receiver : Node} {message : Symbol} {args : List Node}
    {position : Position} (h : receiver.type = .implicitSelf ∨ receiver.WellFormed)
    (h' : AllWellFormed args) (noOperator : TokenKind.ofOperator? message.name = none)
    (isName : IsName message.name) : WellFormed (.call receiver message args position) := by
  refine ⟨h, h', ?_⟩
  rw [noOperator]
  exact isName

theorem WellFormed.operation {left right : Node} {message : Symbol} {kind : TokenKind}
    {position : Position} (h : left.WellFormed) (h' : right.WellFormed)
    (operator : TokenKind.ofOperator? message.name = some kind) :
    WellFormed (.call left message [right] position) := by
  refine ⟨.inr h, ⟨h', trivial⟩, ?_⟩
  rw [operator]
  exact ⟨h.explicit, rfl⟩

end Node

end RubyReader
