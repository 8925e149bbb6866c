/-
# `Serialization` — what a tagged list keeps of its tree

A tagged list does not say where its tree was read, nor what tokens its names were; it
keeps the text of a name alone, and whether a name is a variable only where one is read.
Two trees are written differently that are no more different than this:

    x              a name that is no variable is a call to self without arguments
    def m end      a method with nothing in it gives back nil

A tree in which all this is settled is `normal`, and it can be read off the tagged list
(`ofTagged_tagged`).  So two trees have the same tagged list iff they have the same normal
form (`sexp_eq_iff`).
-/
import RubyReader.Proofs.Tree.Tagged

namespace RubyReader

/-- A name that is known by its text alone. -/
def Identifier.ofName (name : String) (isLocal : Bool) : Identifier :=
  ⟨.new .identifier name .start, isLocal⟩

@[simp] theorem Identifier.name_ofName (name : String) (isLocal : Bool) :
    (ofName name isLocal).name = name := rfl

namespace Node

/-! ## The normal form -/

/-- The normal form of a parameter: its name. -/
def normalParameter : Node → Node
  | identifier name _ => .identifier (.ofName name.name false) .start
  | other => other

mutual

/-- A tree without places and with the texts of its names, in which a name in value
position is a variable, and a method has at least one statement. -/
def normal : Node → Node
  | assignment target value _ => .assignment (.ofName target.name false) (normal value) .start
  | block nodes _ => .block (allNormal nodes) .start
  | call receiver message args _ => .call (normal receiver) message (allNormal args) .start
  | definition name params body _ =>
    .definition (.ofName name.name false) (params.map normalParameter)
      (if body.isEmpty then [.nilLiteral .start] else allNormal body) .start
  | falseLiteral _ => .falseLiteral .start
  | identifier name _ =>
    if name.isLocal then .identifier (.ofName name.name true) .start
    else .call (.implicitSelf .start) ⟨name.name⟩ [] .start
  | conditional condition ifTrue ifFalse _ =>
    .conditional (normal condition) (normal ifTrue) (normal ifFalse) .start
  | implicitSelf _ => .implicitSelf .start
  | literal value _ => .literal value .start
  | nilLiteral _ => .nilLiteral .start
  | string value _ => .string value .start
  | symbol value _ => .symbol value .start
  | trueLiteral _ => .trueLiteral .start

def allNormal : List Node → List Node
  | [] => []
  | node :: rest => normal node :: allNormal rest

end

@[simp] theorem parameterName?_normalParameter (param : Node) :
    param.normalParameter.parameterName? = param.parameterName? := by
  cases param <;> rfl

mutual

/-- A tree has the tagged list of its normal form. -/
theorem tagged_normal : (node : Node) → node.normal.tagged = node.tagged
  | assignment target value _ => by
      rw [normal, tagged, tagged, tagged_normal value, Identifier.name_ofName]
  | block nodes _ => by rw [normal, tagged, tagged, allTagged_allNormal nodes]
  | call receiver message args _ => by
      rw [normal, tagged, tagged, tagged_normal receiver, allTagged_allNormal args]
  | definition name params body _ => by
      have names : (params.map normalParameter).filterMap parameterName?
          = params.filterMap parameterName? := by
        rw [List.filterMap_map]
        exact List.filterMap_congr fun param _ => parameterName?_normalParameter param
      rw [normal, tagged, tagged, names, Identifier.name_ofName]
      cases body with
      | nil => rfl
      | cons first rest =>
          have below : allTagged (allNormal (first :: rest)) = allTagged (first :: rest) :=
            allTagged_allNormal (first :: rest)
          exact congrArg (fun statements => Value.tagged "defn" (_ :: _ :: statements)) below
  | identifier name _ => by
      rw [normal]
      split
      · rename_i isLocal
        rw [tagged, tagged, if_pos isLocal]
        rfl
      · rename_i isCall
        rw [tagged, tagged, if_neg isCall]
        rfl
  | conditional condition ifTrue ifFalse _ => by
      rw [normal, tagged, tagged, tagged_normal condition, tagged_normal ifTrue,
        tagged_normal ifFalse]
  | implicitSelf _ | falseLiteral _ | literal .. | nilLiteral _ | string .. | symbol ..
  | trueLiteral _ => rfl

theorem allTagged_allNormal : (nodes : List Node) → allTagged (allNormal nodes) = allTagged nodes
  | [] => rfl
  | node :: rest => by
      rw [allNormal, allTagged, allTagged, tagged_normal node, allTagged_allNormal rest]

end

/-! ## Reading a tagged list -/

/-- The parameter that a value in an argument list stands for. -/
def parameterOf : Value → Node
  | .sym name => .identifier (.ofName name.name false) .start
  | _ => .implicitSelf .start

mutual

/-- The tree that a tagged list stands for; what no tree is written as is the implicit
self. -/
def ofTagged : Value → Node
  | .sexp tag children =>
    match tag.name, children with
    | "lasgn", [.sym target, value] =>
      .assignment (.ofName target.name false) (ofTagged value) .start
    | "block", nodes => .block (allOfTagged nodes) .start
    | "call", receiver :: .sym message :: args =>
      .call (ofTagged receiver) message (allOfTagged args) .start
    | "defn", .sym name :: .sexp _ params :: body =>
      .definition (.ofName name.name false) (params.map parameterOf) (allOfTagged body) .start
    | "lvar", [.sym name] => .identifier (.ofName name.name true) .start
    | "if", [condition, ifTrue, ifFalse] =>
      .conditional (ofTagged condition) (ofTagged ifTrue) (ofTagged ifFalse) .start
    | "lit", [value] => .literal value .start
    | "str", [value] => .string value .start
    | "sym", [value] => .symbol value .start
    | "nil", [] => .nilLiteral .start
    | "true", [] => .trueLiteral .start
    | "false", [] => .falseLiteral .start
    | _, _ => .implicitSelf .start
  | _ => .implicitSelf .start

def allOfTagged : List Value → List Node
  | [] => []
  | value :: rest => ofTagged value :: allOfTagged rest

end

theorem map_parameterOf {params : List Node}
    (names : ∀ param ∈ params, ∃ name, param.parameterName? = some name) :
    ((params.filterMap parameterName?).map symbolOf).map parameterOf
      = params.map normalParameter := by
  induction params with
  | nil => rfl
  | cons param rest ih =>
      obtain ⟨name, found⟩ := names param List.mem_cons_self
      rw [List.filterMap_cons_some found, List.map_cons, List.map_cons, List.map_cons,
        ih fun other mem => names other (List.mem_cons_of_mem _ mem)]
      cases param with
      | identifier => cases found; rfl
      | _ => cases found

mutual

/-- The tagged list of a tree stands for its normal form. -/
theorem ofTagged_tagged : (node : Node) → node.Writable → ofTagged node.tagged = node.normal
  | assignment target value _, able => by
      rw [normal, ← ofTagged_tagged value able]
      rfl
  | block nodes _, able => by
      rw [normal, ← allOfTagged_allTagged nodes able]
      rfl
  | call receiver message args _, ⟨able, able'⟩ => by
      rw [normal, ← ofTagged_tagged receiver able, ← allOfTagged_allTagged args able']
      rfl
  | definition name params body _, ⟨names, able⟩ => by
      rw [normal, ← map_parameterOf names]
      cases body with
      | nil => rfl
      | cons first rest =>
          have below : allOfTagged (allTagged (first :: rest)) = allNormal (first :: rest) :=
            allOfTagged_allTagged (first :: rest) able
          exact congrArg (fun statements => definition _ _ statements _) below
  | identifier name _, _ => by
      rw [normal, tagged]
      split <;> rfl
  | conditional condition ifTrue ifFalse _, ⟨able, able', able''⟩ => by
      rw [normal, ← ofTagged_tagged condition able, ← ofTagged_tagged ifTrue able',
        ← ofTagged_tagged ifFalse able'']
      rfl
  | implicitSelf _, _ | falseLiteral _, _ | literal .., _ | nilLiteral _, _ | string .., _
  | symbol .., _ | trueLiteral _, _ => rfl

theorem allOfTagged_allTagged :
    (nodes : List Node) → AllWritable nodes → allOfTagged (allTagged nodes) = allNormal nodes
  | [], _ => rfl
  | node :: rest, ⟨able, able'⟩ => by
      rw [allTagged, allOfTagged, allNormal, ofTagged_tagged node able,
        allOfTagged_allTagged rest able']

end

/-! ## Equal tagged lists -/

/-- Two trees that can be written, whatever symbols there are, are written as equal lists
iff they have the same normal form. -/
theorem sexp_eq_iff {a b : Node} {symbols symbols' after after' : Names} {u v : Value}
    (first : a.sexp symbols = (.ok u, after)) (second : b.sexp symbols' = (.ok v, after')) :
    u = v ↔ a.normal = b.normal := by
  obtain ⟨able, rfl⟩ := sexp_eq_ok_iff.mp ⟨after, first⟩
  obtain ⟨able', rfl⟩ := sexp_eq_ok_iff.mp ⟨after', second⟩
  constructor
  · intro same
    rw [← ofTagged_tagged a able, ← ofTagged_tagged b able', same]
  · intro same
    rw [← tagged_normal a, ← tagged_normal b, same]

/-- A method with nothing in it, and one that gives back nil, which was read elsewhere and
with other marks. -/
theorem sexp_eq_iff_of_empty_method :
    ∃ u v after after',
      (definition (.ofName "m" true) [.identifier (.ofName "a" false) ⟨1, 7⟩] [] .start).sexp
          .empty = (.ok u, after) ∧
        (definition (.ofName "m" false) [.identifier (.ofName "a" true) ⟨3, 5⟩]
          [.nilLiteral ⟨4, 1⟩] ⟨3, 1⟩).sexp (.ofList ["b"]) = (.ok v, after') ∧
        (u = v ↔
          (definition (.ofName "m" true) [.identifier (.ofName "a" false) ⟨1, 7⟩] [] .start).normal
            = (definition (.ofName "m" false) [.identifier (.ofName "a" true) ⟨3, 5⟩]
              [.nilLiteral ⟨4, 1⟩] ⟨3, 1⟩).normal) :=
  ⟨_, _, _, _, rfl, rfl, @sexp_eq_iff _ _ .empty (.ofList ["b"]) _ _ _ _ rfl rfl⟩

end Node

end RubyReader
