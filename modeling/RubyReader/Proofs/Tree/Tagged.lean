/-
# `Tagged` — what a tree is written as

Writing a tree interns symbols, but what is written does not depend on those there are.
A tree can be written if every parameter in it is a name (`Writable`), and is then written
as its tagged list (`toSexp_writes`):

    x = v       s(:lasgn, :x, v)
    r.m(a)      s(:call, r, :m, a)
    …
-/
import RubyReader.Proofs.Tree.WellFormed

namespace RubyReader

/-! ## Writing -/

namespace Serializer

/-- Whatever symbols there are, a value is written if something holds, and otherwise
nothing is. -/
def Writes {α : Type} (m : Serializer α) (able : Prop) (a : α) : Prop :=
  ∀ symbols, (able ∧ ∃ after, m symbols = .ok a after) ∨
    (¬ able ∧ ∃ fault after, m symbols = .error fault after)

section

variable {α β : Type} {m : Serializer α} {f : α → Serializer β} {able able' : Prop} {a : α} {b : β}

theorem Writes.of_iff (h : m.Writes able a) (same : able ↔ able') : m.Writes able' a :=
  propext same ▸ h

theorem Writes.bind (first : m.Writes able a) (second : (f a).Writes able' b) :
    (m >>= f).Writes (able ∧ able') b := by
  intro symbols
  rcases first symbols with ⟨yes, middle, written⟩ | ⟨no, fault, after, failed⟩
  · have next : (m >>= f) symbols = f a middle := by
      show EStateM.bind m f symbols = _
      rw [EStateM.bind, written]
    rw [next]
    rcases second middle with ⟨yes', after⟩ | ⟨no', after⟩
    · exact .inl ⟨⟨yes, yes'⟩, after⟩
    · exact .inr ⟨fun both => no' both.2, after⟩
  · refine .inr ⟨fun both => no both.1, fault, after, ?_⟩
    show EStateM.bind m f symbols = _
    rw [EStateM.bind, failed]

theorem writes_pure (a : α) : (pure a : Serializer α).Writes True a :=
  fun symbols => .inl ⟨trivial, symbols, rfl⟩

theorem writes_throw (fault : Fault) (a : α) : (throw fault : Serializer α).Writes False a :=
  fun symbols => .inr ⟨id, fault, symbols, rfl⟩

end

theorem writes_intern (name : String) : (intern name).Writes True ⟨name⟩ :=
  fun symbols => .inl ⟨trivial, symbols.insert name, rfl⟩

theorem writes_symbol (name : String) : (symbol name).Writes True (.sym ⟨name⟩) :=
  fun symbols => .inl ⟨trivial, symbols.insert name, rfl⟩

end Serializer

/-! ## Trees

Every tree has a tagged list.  It is written as this list if all of its parameters are
names, and otherwise not at all. -/

open Serializer

namespace Node

mutual

/-- Whether all parameters in a tree are names. -/
def Writable : Node → Prop
  | assignment _ value _ => Writable value
  | block nodes _ => AllWritable nodes
  | call receiver _ args _ => Writable receiver ∧ AllWritable args
  | definition _ params body _ =>
    (∀ param ∈ params, ∃ name, param.parameterName? = some name) ∧ AllWritable body
  | conditional condition ifTrue ifFalse _ =>
    Writable condition ∧ Writable ifTrue ∧ Writable ifFalse
  | falseLiteral _ | identifier .. | implicitSelf _ | literal .. | nilLiteral _ | string ..
  | symbol .. | trueLiteral _ => True

def AllWritable : List Node → Prop
  | [] => True
  | node :: rest => Writable node ∧ AllWritable rest

end

def symbolOf (name : String) : Value := .sym ⟨name⟩

mutual

def tagged : Node → Value
  | assignment target value _ => .tagged "lasgn" [symbolOf target.name, tagged value]
  | block nodes _ => .tagged "block" (allTagged nodes)
  | call receiver message args _ =>
    .tagged "call" (tagged receiver :: .sym message :: allTagged args)
  | definition name params body _ =>
    .tagged "defn" (symbolOf name.name ::
      .tagged "args" ((params.filterMap parameterName?).map symbolOf) ::
        (if body.isEmpty then [.tagged "nil" []] else allTagged body))
  | falseLiteral _ => .tagged "false" []
  | identifier name _ =>
    if name.isLocal then .tagged "lvar" [symbolOf name.name]
    else .tagged "call" [.nil, symbolOf name.name]
  | conditional condition ifTrue ifFalse _ =>
    .tagged "if" [tagged condition, tagged ifTrue, tagged ifFalse]
  | implicitSelf _ => .nil
  | literal value _ => .tagged "lit" [value]
  | nilLiteral _ => .tagged "nil" []
  | string value _ => .tagged "str" [value]
  | symbol value _ => .tagged "sym" [value]
  | trueLiteral _ => .tagged "true" []

def allTagged : List Node → List Value
  | [] => []
  | node :: rest => tagged node :: allTagged rest

end

theorem writes_leaf (tag : String) (children : List Value) :
    (leaf tag children).Writes True (.tagged tag children) :=
  .of_iff (.bind (writes_intern tag) (writes_pure _)) (and_self_iff)

theorem writes_name (name : Identifier) (position : Position) :
    name.toSexp.Writes True (identifier name position).tagged := by
  rw [Identifier.toSexp, tagged]
  split
  · exact .of_iff (.bind (writes_intern _) (.bind (writes_symbol _) (writes_pure _))) (by simp)
  · exact .of_iff (.bind (writes_intern _) (.bind (writes_symbol _) (writes_pure _))) (by simp)

theorem writes_parameterNames (params : List Node) :
    (parameterNames params).Writes (∀ param ∈ params, ∃ name, param.parameterName? = some name)
      ((params.filterMap parameterName?).map symbolOf) := by
  induction params with
  | nil => exact .of_iff (writes_pure _) (by simp)
  | cons param rest ih =>
      cases param with
      | identifier name position =>
          rw [parameterNames, List.filterMap_cons_some (by rfl), List.map_cons]
          refine .of_iff (.bind (writes_symbol _) (.bind ih (writes_pure _))) ?_
          simp [parameterName?]
      | _ => exact .of_iff (writes_throw _ _) (by simp [parameterName?])

mutual

/-- A tree is written as its tagged list, if all parameters in it are names. -/
theorem toSexp_writes : (node : Node) → node.toSexp.Writes node.Writable node.tagged
  | assignment target value _ => by
      rw [toSexp, Writable, tagged]
      exact .of_iff (.bind (writes_intern _) (.bind (writes_symbol _)
        (.bind (toSexp_writes value) (writes_pure _)))) (by simp)
  | block nodes _ => by
      rw [toSexp, Writable, tagged]
      exact .of_iff (.bind (writes_intern _) (.bind (allToSexp_writes nodes) (writes_pure _)))
        (by simp)
  | call receiver message args _ => by
      rw [toSexp, Writable, tagged]
      exact .of_iff (.bind (writes_intern _) (.bind (toSexp_writes receiver)
        (.bind (allToSexp_writes args) (writes_pure _)))) (by simp)
  | definition name params [] _ => by
      rw [toSexp, Writable, tagged]
      exact .of_iff (.bind (writes_intern _) (.bind (writes_symbol _) (.bind (writes_intern _)
        (.bind (writes_parameterNames params) (.bind (writes_intern _) (writes_pure _))))))
        (by simp [AllWritable])
  | definition name params (node :: rest) _ => by
      rw [toSexp, Writable, tagged]
      exact .of_iff (.bind (writes_intern _) (.bind (writes_symbol _) (.bind (writes_intern _)
        (.bind (writes_parameterNames params) (.bind (allToSexp_writes (node :: rest))
          (writes_pure _)))))) (by simp)
  | conditional condition ifTrue ifFalse _ => by
      rw [toSexp, Writable, tagged]
      exact .of_iff (.bind (writes_intern _) (.bind (toSexp_writes condition)
        (.bind (toSexp_writes ifTrue) (.bind (toSexp_writes ifFalse) (writes_pure _))))) (by simp)
  | identifier name position => by
      rw [toSexp, Writable]
      exact writes_name name position
  | implicitSelf _ => writes_pure _
  | falseLiteral _ | literal _ _ | nilLiteral _ | string _ _ | symbol _ _ | trueLiteral _ =>
      writes_leaf _ _

theorem allToSexp_writes :
    (nodes : List Node) → (allToSexp nodes).Writes (AllWritable nodes) (allTagged nodes)
  | [] => writes_pure _
  | node :: rest => by
      rw [allToSexp, AllWritable, allTagged]
      exact .of_iff (.bind (toSexp_writes node) (.bind (allToSexp_writes rest) (writes_pure _)))
        (by simp)

end

/-- What a tree is written as, and when it is. -/
theorem sexp_eq_ok_iff {node : Node} {symbols : Names} {value : Value} :
    (∃ after, node.sexp symbols = (.ok value, after)) ↔ node.Writable ∧ value = node.tagged := by
  unfold sexp
  rcases toSexp_writes node symbols with ⟨able, after, written⟩ | ⟨unable, fault, after, failed⟩
  · rw [written]
    simp [able, eq_comm]
  · rw [failed]
    simp [unable]

mutual

/-- An expression can be written, since its parameters are names. -/
theorem WellFormed.writable : {node : Node} → node.WellFormed → node.Writable
  | assignment .. => fun ⟨_, value⟩ => value.writable
  | call receiver .. => fun ⟨receives, args, _⟩ => by
      refine ⟨?_, args.writable⟩
      rcases receives with implicit | expression
      · obtain ⟨place, rfl⟩ := exists_implicitSelf implicit
        trivial
      · exact expression.writable
  | definition .. => fun ⟨_, params, _, body⟩ =>
      ⟨fun param mem => (params param mem).exists_name, body.writable⟩
  | conditional .. => fun ⟨condition, ifTrue, ifFalse⟩ =>
      ⟨condition.writable, ifTrue.writable, ifFalse.writable⟩
  | falseLiteral _ | identifier .. | literal .. | nilLiteral _ | string .. | symbol ..
  | trueLiteral _ => fun _ => trivial
  | block .. | implicitSelf _ => False.elim

theorem AllWellFormed.writable : {nodes : List Node} → AllWellFormed nodes → AllWritable nodes
  | [] => fun _ => trivial
  | _ :: _ => fun ⟨first, rest⟩ => ⟨first.writable, rest.writable⟩

end

end Node

end RubyReader
