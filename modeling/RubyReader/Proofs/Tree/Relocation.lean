/-
# `Relocation` — the same tokens and trees at other places

A function on positions moves tokens and trees.  Moving changes nothing else,
and moves compose.
-/
import RubyReader.Tree.Basic

namespace RubyReader

variable (move : Position → Position)

/-- A token at another place. -/
def Token.relocate (token : Token) : Token := { token with position := move token.position }

@[simp] theorem Token.kind_relocate (token : Token) : (token.relocate move).kind = token.kind := rfl

def Identifier.relocate (name : Identifier) : Identifier :=
  { name with token := name.token.relocate move }

namespace Node

mutual

/-- A tree with all its nodes at other places. -/
def relocate : Node → Node
  | assignment target value position =>
    assignment (target.relocate move) (relocate value) (move position)
  | block nodes position => block (relocateAll nodes) (move position)
  | call receiver message args position =>
    call (relocate receiver) message (relocateAll args) (move position)
  | definition name params body position =>
    definition (name.relocate move) (relocateAll params) (relocateAll body) (move position)
  | falseLiteral position => falseLiteral (move position)
  | identifier name position => identifier (name.relocate move) (move position)
  | conditional condition ifTrue ifFalse position =>
    conditional (relocate condition) (relocate ifTrue) (relocate ifFalse) (move position)
  | implicitSelf position => implicitSelf (move position)
  | literal value position => literal value (move position)
  | nilLiteral position => nilLiteral (move position)
  | string value position => string value (move position)
  | symbol value position => symbol value (move position)
  | trueLiteral position => trueLiteral (move position)

def relocateAll : List Node → List Node
  | [] => []
  | node :: rest => relocate node :: relocateAll rest

end

theorem relocateAll_eq_map (nodes : List Node) :
    relocateAll move nodes = nodes.map (relocate move) := by
  induction nodes with
  | nil => rfl
  | cons node rest ih => rw [relocateAll, ih, List.map_cons]

end Node

/-! ## Moves compose -/

namespace Node

mutual

theorem relocate_id : (node : Node) → node.relocate id = node
  | assignment target value position => by rw [relocate, relocate_id value]; rfl
  | block nodes position => by rw [relocate, relocateAll_id nodes]; rfl
  | call receiver message args position => by
      rw [relocate, relocate_id receiver, relocateAll_id args]
      rfl
  | definition name params body position => by
      rw [relocate, relocateAll_id params, relocateAll_id body]
      rfl
  | conditional condition ifTrue ifFalse position => by
      rw [relocate, relocate_id condition, relocate_id ifTrue, relocate_id ifFalse]
      rfl
  | falseLiteral _ | identifier _ _ | implicitSelf _ | literal _ _ | nilLiteral _ | string _ _
  | symbol _ _ | trueLiteral _ => rfl

theorem relocateAll_id : (nodes : List Node) → relocateAll id nodes = nodes
  | [] => rfl
  | node :: rest => by rw [relocateAll, relocate_id node, relocateAll_id rest]

end

variable (next : Position → Position)

mutual

theorem relocate_relocate :
    (node : Node) → (node.relocate move).relocate next = node.relocate (next ∘ move)
  | assignment target value position => by
      rw [relocate, relocate, relocate, relocate_relocate value]
      rfl
  | block nodes position => by rw [relocate, relocate, relocate, relocateAll_relocateAll nodes]; rfl
  | call receiver message args position => by
      rw [relocate, relocate, relocate, relocate_relocate receiver, relocateAll_relocateAll args]
      rfl
  | definition name params body position => by
      rw [relocate, relocate, relocate, relocateAll_relocateAll params,
        relocateAll_relocateAll body]
      rfl
  | conditional condition ifTrue ifFalse position => by
      rw [relocate, relocate, relocate, relocate_relocate condition, relocate_relocate ifTrue,
        relocate_relocate ifFalse]
      rfl
  | falseLiteral _ | identifier _ _ | implicitSelf _ | literal _ _ | nilLiteral _ | string _ _
  | symbol _ _ | trueLiteral _ => rfl

theorem relocateAll_relocateAll : (nodes : List Node) →
    relocateAll next (relocateAll move nodes) = relocateAll (next ∘ move) nodes
  | [] => rfl
  | node :: rest => by
      rw [relocateAll, relocateAll, relocateAll, relocate_relocate node,
        relocateAll_relocateAll rest]

end

end Node

/-! ## Trees moved apart

Two trees agree when each is moved if their parts do. -/

section

variable {move move' : Position → Position}

theorem Identifier.relocate_eq (name : Identifier) {place : Position}
    (here : move' place = move name.token.position) :
    Identifier.relocate move' ⟨{ name.token with position := place }, name.isLocal⟩
      = name.relocate move := by
  rw [relocate, relocate, Token.relocate, Token.relocate, here]

namespace Node

variable {name name' : Identifier} {message : Symbol}
  {value value' receiver receiver' ifTrue ifTrue' ifFalse ifFalse' : Node}
  {args args' params params' body body' : List Node} {position position' : Position}

theorem relocateAll_cons_eq (h : value'.relocate move' = value.relocate move)
    (h' : relocateAll move' args' = relocateAll move args) :
    relocateAll move' (value' :: args') = relocateAll move (value :: args) := by
  rw [relocateAll, relocateAll, h, h']

theorem relocate_identifier_eq (named : name'.relocate move' = name.relocate move)
    (here : move' position' = move position) :
    (identifier name' position').relocate move' = (identifier name position).relocate move := by
  rw [relocate, relocate, named, here]

theorem relocate_assignment_eq (target : name'.relocate move' = name.relocate move)
    (h : value'.relocate move' = value.relocate move) (here : move' position' = move position) :
    (assignment name' value' position').relocate move'
      = (assignment name value position).relocate move := by
  rw [relocate, relocate, target, h, here]

theorem relocate_call_eq (h : receiver'.relocate move' = receiver.relocate move)
    (h' : relocateAll move' args' = relocateAll move args)
    (here : move' position' = move position) :
    (call receiver' message args' position').relocate move'
      = (call receiver message args position).relocate move := by
  rw [relocate, relocate, h, h', here]

theorem relocate_definition_eq (named : name'.relocate move' = name.relocate move)
    (h : relocateAll move' params' = relocateAll move params)
    (h' : relocateAll move' body' = relocateAll move body)
    (here : move' position' = move position) :
    (definition name' params' body' position').relocate move'
      = (definition name params body position).relocate move := by
  rw [relocate, relocate, named, h, h', here]

theorem relocate_conditional_eq (h : value'.relocate move' = value.relocate move)
    (h' : ifTrue'.relocate move' = ifTrue.relocate move)
    (h'' : ifFalse'.relocate move' = ifFalse.relocate move)
    (here : move' position' = move position) :
    (conditional value' ifTrue' ifFalse' position').relocate move'
      = (conditional value ifTrue ifFalse position).relocate move := by
  rw [relocate, relocate, h, h', h'', here]

theorem exists_identifier {node : Node}
    (h : node.relocate move' = (identifier name position).relocate move) :
    ∃ place position', move' place = move name.token.position ∧
      move' position' = move position ∧
      node = identifier ⟨{ name.token with position := place }, name.isLocal⟩ position' := by
  cases node with
  | identifier name' position' =>
      obtain ⟨⟨kind, literal, place, signed⟩, isLocal⟩ := name'
      simp only [relocate, Identifier.relocate, Token.relocate, identifier.injEq,
        Identifier.mk.injEq, Token.mk.injEq] at h
      obtain ⟨⟨⟨rfl, rfl, here, rfl⟩, rfl⟩, here'⟩ := h
      exact ⟨place, position', here, here', rfl⟩
  | _ => simp [relocate] at h

theorem exists_call {node : Node}
    (h : node.relocate move' = (call receiver message [] position).relocate move) :
    ∃ receiver' position', receiver'.relocate move' = receiver.relocate move ∧
      move' position' = move position ∧ node = call receiver' message [] position' := by
  cases node with
  | call receiver' message' args position' =>
      cases args with
      | nil =>
          simp only [relocate, call.injEq] at h
          obtain ⟨same, rfl, -, here⟩ := h
          exact ⟨receiver', position', same, here, rfl⟩
      | cons arg args => simp [relocate, relocateAll] at h
  | _ => simp [relocate] at h

end Node

end

/-! ## Up to places -/

/-- One place for everything. -/
def nowhere (_ : Position) : Position := .start

/-- Tokens that are the same up to places differ in their place alone. -/
theorem Token.relocate_nowhere_eq_iff {token token' : Token} :
    token'.relocate nowhere = token.relocate nowhere ↔
      ∃ place, token' = { token with position := place } := by
  refine ⟨fun same => ⟨token'.position, ?_⟩, ?_⟩
  · obtain ⟨kind, literal, place, signed⟩ := token
    obtain ⟨kind', literal', place', signed'⟩ := token'
    simp only [relocate, Token.mk.injEq] at same ⊢
    exact ⟨same.1, same.2.1, trivial, same.2.2.2⟩
  · rintro ⟨place, rfl⟩
    rfl

namespace Node

/-- Two trees that differ at most in where their nodes stand. -/
def Alike (a b : Node) : Prop := a.relocate nowhere = b.relocate nowhere

def AllAlike (as bs : List Node) : Prop := relocateAll nowhere as = relocateAll nowhere bs

theorem AllAlike.nil : AllAlike [] [] := rfl

theorem AllAlike.trans {as bs cs : List Node} (h : AllAlike as bs) (h' : AllAlike bs cs) :
    AllAlike as cs :=
  Eq.trans h h'

theorem AllAlike.cons {a b : Node} {as bs : List Node} (h : Alike a b) (h' : AllAlike as bs) :
    AllAlike (a :: as) (b :: bs) := relocateAll_cons_eq h h'

section

variable {message : Symbol} {value value' receiver receiver' : Node}
  {args args' params params' body body' : List Node} {position position' place : Position}

theorem Alike.block (h : AllAlike args args') : Alike (.block args position)
    (.block args' position') := by
  rw [Alike, relocate, relocate, h]
  rfl

theorem Alike.assignment (name : Identifier) (h : Alike value value') :
    Alike (.assignment ⟨{ name.token with position := place }, name.isLocal⟩ value position)
      (.assignment name value' position') :=
  relocate_assignment_eq (name.relocate_eq rfl) h rfl

theorem Alike.call (h : Alike receiver receiver') (h' : AllAlike args args') :
    Alike (.call receiver message args position) (.call receiver' message args' position') :=
  relocate_call_eq h h' rfl

theorem Alike.definition (name : Identifier) (h : AllAlike params params')
    (h' : AllAlike body body') :
    Alike (.definition ⟨{ name.token with position := place }, name.isLocal⟩ params body position)
      (.definition name params' body' position') :=
  relocate_definition_eq (name.relocate_eq rfl) h h' rfl

theorem Alike.conditional {ifTrue ifTrue' ifFalse ifFalse' : Node} (h : Alike value value')
    (h' : Alike ifTrue ifTrue') (h'' : Alike ifFalse ifFalse') :
    Alike (.conditional value ifTrue ifFalse position)
      (.conditional value' ifTrue' ifFalse' position') :=
  relocate_conditional_eq h h' h'' rfl

end

end Node

end RubyReader
