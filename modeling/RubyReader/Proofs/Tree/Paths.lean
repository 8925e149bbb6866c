/-
# `Paths` — ways down through a tree

A tree is a root and the edges to its children; a path is the edges from a node down to one
below it.  The edges to the receiver of a call and to the condition of a conditional go to
what stands left of everything else, and chains of them are left-deep.  All other edges turn
off to the right, and a path is measured by how often it turns:

    x = v             value                  turns
    a; b   def end    statement              turn
    r.m(a, b)         receiver               goes on left
                      argument               turns
    def m(a)          parameter              turns
    c ? a : b         condition              goes on left
                      branch                 turns
-/
import RubyReader.Tree.Basic

namespace RubyReader

/-- What a child is to its node. -/
inductive Edge where
  | value
  | statement
  | receiver
  | argument
  | parameter
  | condition
  | branch
deriving DecidableEq

/-- Whether an edge goes on to the left. -/
def Edge.isLeft : Edge → Bool
  | receiver | condition => true
  | value | statement | argument | parameter | branch => false

/-- How many edges of a path turn off to the right. -/
def turns (path : List Edge) : Nat := path.countP fun edge => !edge.isLeft

namespace Node

/-- The children of a node, each behind its edge. -/
def children : Node → List (Edge × Node)
  | assignment _ value _ => [(.value, value)]
  | block nodes _ => nodes.map fun node => (.statement, node)
  | call receiver _ args _ => (.receiver, receiver) :: args.map fun arg => (.argument, arg)
  | definition _ params body _ =>
    (params.map fun param => (.parameter, param)) ++ body.map fun node => (.statement, node)
  | conditional condition ifTrue ifFalse _ =>
    [(.condition, condition), (.branch, ifTrue), (.branch, ifFalse)]
  | falseLiteral _ | identifier _ _ | implicitSelf _ | literal _ _ | nilLiteral _ | string _ _
  | symbol _ _ | trueLiteral _ => []

/-- The edges from a node down to one below it. -/
inductive Path : Node → List Edge → Node → Prop
  | here {node : Node} : Path node [] node
  | down {node child below : Node} {edge : Edge} {path : List Edge} :
      (edge, child) ∈ node.children → Path child path below → Path node (edge :: path) below

/-- Every path down from a node turns less than `most` times. -/
def TurnsLess (most : Nat) (node : Node) : Prop :=
  ∀ path below, node.Path path below → turns path < most

variable {most fewer : Nat} {node receiver value condition ifTrue ifFalse : Node}
  {message : Symbol} {name : Identifier} {args params body : List Node} {position : Position}

/-- A node turns less than some times if its left children do, and its other children one time
less. -/
theorem TurnsLess.of_children (less : fewer < most)
    (below : ∀ child ∈ node.children,
      child.1.isLeft = true ∧ child.2.TurnsLess most ∨ child.2.TurnsLess fewer) :
    node.TurnsLess most := by
  intro path leaf way
  cases way with
  | here => exact Nat.zero_lt_of_lt less
  | @down _ child _ edge path among way =>
      rcases below (edge, child) among with ⟨left, child⟩ | child
      · have rest := child path leaf way
        simpa [turns, left] using rest
      · have rest := child path leaf way
        have one_more : turns (edge :: path) ≤ turns path + 1 := by
          rw [turns, turns, List.countP_cons]
          split <;> omega
        omega

theorem TurnsLess.of_leaf (pos : 0 < most) (leaf : node.children = []) : node.TurnsLess most :=
  .of_children pos (by simp [leaf])

theorem TurnsLess.pos (h : node.TurnsLess most) : 0 < most := h [] node .here

theorem TurnsLess.mono (h : node.TurnsLess fewer) (le : fewer ≤ most) : node.TurnsLess most :=
  fun path below way => Nat.lt_of_lt_of_le (h path below way) le

/-! ## Nodes with children

A call goes on left to its receiver and a conditional to its condition.  A path turns to all
other children, which may turn one time less. -/

theorem TurnsLess.assignment (h : value.TurnsLess fewer) (less : fewer < most) :
    (Node.assignment name value position).TurnsLess most :=
  .of_children less (List.forall_mem_singleton.mpr (.inr h))

theorem TurnsLess.block (h : ∀ node ∈ body, node.TurnsLess fewer) (less : fewer < most) :
    (Node.block body position).TurnsLess most :=
  .of_children less (List.forall_mem_map.mpr fun node mem => .inr (h node mem))

theorem TurnsLess.call (h : receiver.TurnsLess most) (h' : ∀ arg ∈ args, arg.TurnsLess fewer)
    (less : fewer < most) : (Node.call receiver message args position).TurnsLess most := by
  refine .of_children less (List.forall_mem_cons.mpr ⟨.inl ⟨rfl, h⟩, ?_⟩)
  exact List.forall_mem_map.mpr fun arg mem => .inr (h' arg mem)

theorem TurnsLess.at_receiver (h : (Node.call receiver message args position).TurnsLess most) :
    receiver.TurnsLess most := by
  intro path below way
  have whole := h (.receiver :: path) below (.down List.mem_cons_self way)
  simpa [turns, Edge.isLeft] using whole

theorem TurnsLess.definition (h : ∀ param ∈ params, param.TurnsLess fewer)
    (h' : ∀ node ∈ body, node.TurnsLess fewer) (less : fewer < most) :
    (Node.definition name params body position).TurnsLess most := by
  refine .of_children less (List.forall_mem_append.mpr ⟨?_, ?_⟩)
  · exact List.forall_mem_map.mpr fun param mem => .inr (h param mem)
  · exact List.forall_mem_map.mpr fun node mem => .inr (h' node mem)

theorem TurnsLess.conditional (h : condition.TurnsLess most) (h' : ifTrue.TurnsLess fewer)
    (h'' : ifFalse.TurnsLess fewer) (less : fewer < most) :
    (Node.conditional condition ifTrue ifFalse position).TurnsLess most := by
  refine .of_children less (List.forall_mem_cons.mpr ⟨.inl ⟨rfl, h⟩, ?_⟩)
  exact List.forall_mem_cons.mpr ⟨.inr h', List.forall_mem_singleton.mpr (.inr h'')⟩

end Node

end RubyReader
