/-
# `Sexp` — the syntax tree as tagged lists

    x = v              s(:lasgn, :x, v)
    a; b               s(:block, a, b)
    r.m(a)             s(:call, r, :m, a)        r is nil for the implicit self
    def m(a) b end     s(:defn, :m, s(:args, :a), b)    b is s(:nil) if nothing is there
    x                  s(:lvar, :x), or s(:call, nil, :x) if x is no local variable
    c ? a : b          s(:if, c, a, b)
    1  "s"  :s         s(:lit, 1)  s(:str, "s")  s(:sym, :s)
    nil  true  false   s(:nil)  s(:true)  s(:false)

Every symbol is interned as it is written, tags included.  The only trees
that cannot be written are those with a parameter that is no identifier.
-/
import RubyReader.Diagnostic
import RubyReader.Tree.Basic

namespace RubyReader

/-- Writing a tree: it interns symbols, and may find a fault in the tree. -/
abbrev Serializer := EStateM Fault Names

namespace Serializer

/-- The symbol of a name, which is interned. -/
def intern (name : String) : Serializer Symbol := do
  modify fun symbols => symbols.insert name
  pure ⟨name⟩

def symbol (name : String) : Serializer Value := Value.sym <$> intern name

end Serializer

open Serializer

/-- A name in value position: a variable, or a call to self. -/
def Identifier.toSexp (identifier : Identifier) : Serializer Value := do
  if identifier.isLocal then
    let tag ← intern "lvar"
    pure (.sexp tag [← symbol identifier.name])
  else
    let tag ← intern "call"
    pure (.sexp tag [.nil, ← symbol identifier.name])

namespace Node

/-- A list without trees inside. -/
def leaf (tag : String) (children : List Value) : Serializer Value := do
  return .sexp (← intern tag) children

/-- The names of parameters, each of which must be an identifier. -/
def parameterNames : List Node → Serializer (List Value)
  | [] => pure []
  | .identifier parameter _ :: rest => do
    let name ← Serializer.symbol parameter.name
    return name :: (← parameterNames rest)
  | other :: _ => throw (.unexpectedNode .identifier other.type other.position)

mutual

/-- The tagged list of a tree. -/
def toSexp : Node → Serializer Value
  | assignment target value _ => do
    let tag ← intern "lasgn"
    let name ← Serializer.symbol target.name
    return .sexp tag [name, ← toSexp value]
  | block nodes _ => do
    let tag ← intern "block"
    return .sexp tag (← allToSexp nodes)
  | call receiver message args _ => do
    let tag ← intern "call"
    let receiver ← toSexp receiver
    return .sexp tag (receiver :: .sym message :: (← allToSexp args))
  | definition name params body _ => do
    let tag ← intern "defn"
    let name ← Serializer.symbol name.name
    let argsTag ← intern "args"
    let args ← parameterNames params
    let statements ←
      if body.isEmpty then do
        let nilTag ← intern "nil"
        pure [.sexp nilTag []]
      else allToSexp body
    return .sexp tag (name :: .sexp argsTag args :: statements)
  | falseLiteral _ => leaf "false" []
  | identifier name _ => name.toSexp
  | conditional condition ifTrue ifFalse _ => do
    let tag ← intern "if"
    let condition ← toSexp condition
    let ifTrue ← toSexp ifTrue
    return .sexp tag [condition, ifTrue, ← toSexp ifFalse]
  | implicitSelf _ => pure .nil
  | literal value _ => leaf "lit" [value]
  | nilLiteral _ => leaf "nil" []
  | string value _ => leaf "str" [value]
  | symbol value _ => leaf "sym" [value]
  | trueLiteral _ => leaf "true" []

def allToSexp : List Node → Serializer (List Value)
  | [] => pure []
  | node :: rest => do
    let first ← toSexp node
    return first :: (← allToSexp rest)

end

/-- The tagged list of a tree, and the symbols interned on the way. -/
def sexp (node : Node) (symbols : Names) : Except Fault Value × Names :=
  match node.toSexp symbols with
  | .ok value symbols => (.ok value, symbols)
  | .error fault symbols => (.error fault, symbols)

end Node
end RubyReader
