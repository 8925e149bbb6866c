/-
# `Symbols` — the symbols that trees and their tagged lists hold

Reading interns the messages of calls and the names of symbols (`Node.mentioned`).  Writing
interns the tags and the other names, those of variables, of methods and of parameters; what
a tree holds already it does not intern again, and may rely on.  Together they are all symbols
of what is written (`toSexp_interns`).

Both are counted by what a table gains (`Names.Gains`), in which order and how often does not
matter.
-/
import RubyReader.Proofs.Names
import RubyReader.Proofs.Tree.Tagged

namespace RubyReader

/-! ## What a table gains

Gains are put together, and only the set of names counts: what was known before may be
counted with them, and what is gained first be gained again. -/

/-- Afterwards there are the names that were there before and some more, and no others. -/
def Names.Gains (names : Names) (more : List String) (after : Names) : Prop :=
  ∀ name, name ∈ after ↔ name ∈ names ∨ name ∈ more

namespace Names

variable {names middle after : Names} {more more' others : List String}

theorem gains_insert (names : Names) (name : String) : names.Gains [name] (names.insert name) := by
  intro other
  rw [mem_insert, List.mem_singleton]

namespace Gains

/-- Names that are there already add nothing. -/
theorem of_known (known : ∀ name ∈ more, name ∈ names) : names.Gains more names :=
  fun name => ⟨.inl, fun mem => mem.elim id (known name)⟩

theorem refl (names : Names) : names.Gains [] names := of_known nofun

theorem mem_of_mem (h : names.Gains more after) {name : String} (mem : name ∈ names) :
    name ∈ after := (h name).mpr (.inl mem)

theorem mem_of_gained (h : names.Gains more after) {name : String} (mem : name ∈ more) :
    name ∈ after := (h name).mpr (.inr mem)

theorem trans (h : names.Gains more middle) (h' : middle.Gains others after) :
    names.Gains (more ++ others) after := by
  intro name
  rw [h' name, h name, List.mem_append, or_assoc]

/-- Of names that are gained it only matters which they are, as far as they are new. -/
theorem of_iff (h : names.Gains more after)
    (same : ∀ name, name ∉ names → (name ∈ more' ↔ name ∈ more)) : names.Gains more' after := by
  intro name
  rw [h name]
  by_cases known : name ∈ names
  · simp [known]
  · rw [same name known]

theorem trans_of_subset (h : names.Gains more middle) (h' : middle.Gains others after)
    (sub : more ⊆ others) : names.Gains others after := by
  refine (h.trans h').of_iff fun name _ => ?_
  rw [List.mem_append, or_iff_right_of_imp (@sub name)]

theorem with_known (h : names.Gains more after) {known : List String}
    (there : ∀ name ∈ known, name ∈ names)
    (same : ∀ name, name ∈ more' ↔ name ∈ known ∨ name ∈ more) : names.Gains more' after := by
  refine h.of_iff fun name new => ?_
  rw [same name, or_iff_right fun mem => new (there name mem)]

end Gains

end Names

/-! ## The symbols of a tree -/

namespace Node

mutual

/-- The messages of the calls in a tree, and the names of its symbols. -/
def mentioned : Node → List String
  | assignment _ value _ => mentioned value
  | block nodes _ => allMentioned nodes
  | call receiver message args _ => message.name :: (mentioned receiver ++ allMentioned args)
  | definition _ params body _ => allMentioned params ++ allMentioned body
  | conditional condition ifTrue ifFalse _ =>
    mentioned condition ++ (mentioned ifTrue ++ mentioned ifFalse)
  | symbol value _ => (value.sym?.map Symbol.name).toList
  | falseLiteral _ | identifier .. | implicitSelf _ | literal .. | nilLiteral _ | string ..
  | trueLiteral _ => []

def allMentioned : List Node → List String
  | [] => []
  | node :: rest => mentioned node ++ allMentioned rest

end

@[simp] theorem allMentioned_singleton (node : Node) : allMentioned [node] = mentioned node := by
  rw [allMentioned, allMentioned, List.append_nil]

/-- A tree that can be written, and whose values hold no symbols but those that it mentions. -/
structure Plain (node : Node) : Prop where
  writable : node.Writable
  symbolNames_eq : node.symbolNames = node.mentioned

structure AllPlain (nodes : List Node) : Prop where
  writable : AllWritable nodes
  symbolNames_eq : allSymbolNames nodes = allMentioned nodes

/-- A list of parameters, each of which is a name. -/
def AllNames (params : List Node) : Prop :=
  ∀ param ∈ params, ∃ name, param.parameterName? = some name

section

variable {node receiver condition ifTrue ifFalse : Node} {nodes args params body : List Node}
  {target name : Identifier} {message : Symbol} {position : Position}

theorem AllPlain.nil : AllPlain [] := ⟨trivial, rfl⟩

theorem AllPlain.cons (h : node.Plain) (h' : AllPlain nodes) : AllPlain (node :: nodes) :=
  ⟨⟨h.writable, h'.writable⟩, by
    rw [allSymbolNames, allMentioned, h.symbolNames_eq, h'.symbolNames_eq]⟩

theorem AllPlain.block (h : AllPlain nodes) (position : Position) :
    Plain (.block nodes position) :=
  ⟨h.writable, h.symbolNames_eq⟩

theorem Plain.assignment (h : node.Plain) : Plain (.assignment target node position) :=
  ⟨h.writable, h.symbolNames_eq⟩

theorem Plain.call (h : receiver.Plain) (h' : AllPlain args) :
    Plain (.call receiver message args position) :=
  ⟨⟨h.writable, h'.writable⟩, by
    rw [symbolNames, mentioned, h.symbolNames_eq, h'.symbolNames_eq, List.cons_append]⟩

theorem Plain.plain_receiver (h : Plain (.call receiver message [] position)) : receiver.Plain := by
  refine ⟨h.writable.1, ?_⟩
  have same : message.name :: (receiver.symbolNames ++ [])
      = message.name :: (receiver.mentioned ++ []) := h.symbolNames_eq
  simpa using same

theorem Plain.conditional (h : condition.Plain) (h' : ifTrue.Plain) (h'' : ifFalse.Plain) :
    Plain (.conditional condition ifTrue ifFalse position) :=
  ⟨⟨h.writable, h'.writable, h''.writable⟩, by
    rw [symbolNames, mentioned, h.symbolNames_eq, h'.symbolNames_eq, h''.symbolNames_eq,
      List.append_assoc]⟩

theorem AllNames.nil : AllNames [] := List.forall_mem_nil _

theorem AllNames.silent (names : AllNames params) :
    allMentioned params = [] ∧ allSymbolNames params = [] := by
  induction params with
  | nil => exact ⟨rfl, rfl⟩
  | cons param rest ih =>
      obtain ⟨name, named⟩ := names param List.mem_cons_self
      obtain ⟨mentions, holds⟩ := ih fun other mem => names other (List.mem_cons_of_mem _ mem)
      cases param with
      | identifier => exact ⟨mentions, holds⟩
      | _ => cases named

theorem Plain.definition (names : AllNames params) (h : AllPlain body) :
    Plain (.definition name params body position) :=
  ⟨⟨names, h.writable⟩, by
    rw [symbolNames, mentioned, h.symbolNames_eq, names.silent.1, names.silent.2]⟩

end

end Node

/-! ## What writing interns -/

namespace Serializer

/-- If the known symbols are there already, writing interns as many as make up `names` with
them. -/
def Interns {α : Type} (m : Serializer α) (known names : List String) : Prop :=
  ∀ (symbols after : Names) (a : α), (∀ name ∈ known, name ∈ symbols) →
    m symbols = .ok a after → symbols.Gains names after

section

variable {α β : Type} {m : Serializer α} {f : α → Serializer β}
  {known known' names names' : List String}

theorem interns_pure (a : α) : (pure a : Serializer α).Interns [] [] := by
  rintro symbols after _ - ⟨⟩
  exact .refl _

theorem interns_throw (fault : Fault) (names : List String) :
    (throw fault : Serializer α).Interns [] names := by
  rintro symbols after a - ⟨⟩

theorem interns_intern (name : String) : (intern name).Interns [] [name] := by
  rintro symbols after _ - ⟨⟩
  exact Names.gains_insert _ _

theorem interns_symbol (name : String) : (symbol name).Interns [] [name] := by
  rintro symbols after _ - ⟨⟩
  exact Names.gains_insert _ _

theorem Interns.bind (first : m.Interns known names)
    (next : ∀ a, (f a).Interns known' names') :
    (m >>= f).Interns (known ++ known') (names ++ names') := by
  intro symbols after b there run
  have run : EStateM.bind m f symbols = .ok b after := run
  rw [EStateM.bind] at run
  split at run
  · rename_i a middle written
    have gained := first _ _ _ (fun name mem => there name (List.mem_append_left _ mem)) written
    refine gained.trans (next a _ _ _ (fun name mem => ?_) run)
    exact gained.mem_of_mem (there name (List.mem_append_right _ mem))
  · cases run

theorem Interns.of_iff (h : m.Interns known names) (sub : known ⊆ known')
    (same : ∀ name, name ∉ known' → (name ∈ names' ↔ name ∈ names)) : m.Interns known' names' := by
  intro symbols after a there run
  refine (h _ _ _ (fun name mem => there name (sub mem)) run).of_iff fun name new => ?_
  exact same name fun mem => new (there name mem)

end

end Serializer

namespace Node

open Serializer

theorem interns_leaf (tag : String) (children : List Value) :
    (leaf tag children).Interns (Value.allSymbolNames children)
      (Value.tagged tag children).symbolNames := by
  refine .of_iff (.bind (interns_intern tag) fun _ => interns_pure _) (by simp) fun name new => ?_
  simp [Value.tagged, Value.symbolNames, new]

theorem interns_name (name : Identifier) (position : Position) :
    name.toSexp.Interns [] (identifier name position).tagged.symbolNames := by
  rw [Identifier.toSexp, tagged]
  split
  · exact .bind (interns_intern _) fun _ => .bind (interns_symbol _) fun _ => interns_pure _
  · exact .bind (interns_intern _) fun _ => .bind (interns_symbol _) fun _ => interns_pure _

theorem allSymbolNames_symbolOf (names : List String) :
    Value.allSymbolNames (names.map symbolOf) = names := by
  induction names with
  | nil => rfl
  | cons name rest ih => exact congrArg (name :: ·) ih

theorem interns_parameterNames (params : List Node) :
    (parameterNames params).Interns [] (params.filterMap parameterName?) := by
  induction params with
  | nil => exact interns_pure _
  | cons param rest ih =>
      cases param with
      | identifier name position =>
          rw [parameterNames, List.filterMap_cons_some (by rfl)]
          refine .of_iff (.bind (interns_symbol _) fun _ => .bind ih fun _ => interns_pure _)
            (List.Subset.refl _) fun other _ => ?_
          simp
      | _ => exact interns_throw _ _

mutual

/-- With the symbols that a tree holds there are, once it is written, all of its tagged list. -/
theorem toSexp_interns :
    (node : Node) → node.toSexp.Interns node.symbolNames node.tagged.symbolNames
  | assignment target value _ => by
      rw [toSexp, symbolNames, tagged]
      refine .of_iff (.bind (interns_intern _) fun _ => .bind (interns_symbol _) fun _ =>
        .bind (toSexp_interns value) fun _ => interns_pure _) (by simp) fun name _ => ?_
      simp [Value.tagged, Value.symbolNames, Value.allSymbolNames, symbolOf]
  | block nodes _ => by
      rw [toSexp, symbolNames, tagged]
      refine .of_iff (.bind (interns_intern _) fun _ => .bind (allToSexp_interns nodes) fun _ =>
        interns_pure _) (by simp) fun name _ => ?_
      simp [Value.tagged, Value.symbolNames]
  | call receiver message args _ => by
      rw [toSexp, symbolNames, tagged]
      refine .of_iff (.bind (interns_intern _) fun _ => .bind (toSexp_interns receiver) fun _ =>
        .bind (allToSexp_interns args) fun _ => interns_pure _) (by simp) fun name new => ?_
      -- the message is not interned, but is known
      have other : name ≠ message.name := fun e => new (by simp [e])
      simp [Value.tagged, Value.symbolNames, Value.allSymbolNames, other]
  | definition name params [] _ => by
      rw [toSexp, symbolNames, tagged]
      refine .of_iff (.bind (interns_intern _) fun _ => .bind (interns_symbol _) fun _ =>
        .bind (interns_intern _) fun _ => .bind (interns_parameterNames params) fun _ =>
          .bind (interns_intern _) fun _ => interns_pure _) (by simp) fun name _ => ?_
      simp [Value.tagged, Value.symbolNames, Value.allSymbolNames, symbolOf,
        allSymbolNames_symbolOf]
  | definition name params (node :: rest) _ => by
      rw [toSexp, symbolNames, tagged]
      refine .of_iff (.bind (interns_intern _) fun _ => .bind (interns_symbol _) fun _ =>
        .bind (interns_intern _) fun _ => .bind (interns_parameterNames params) fun _ =>
          .bind (allToSexp_interns (node :: rest)) fun _ => interns_pure _)
        (by simp) fun name _ => ?_
      simp [Value.tagged, Value.symbolNames, Value.allSymbolNames, symbolOf,
        allSymbolNames_symbolOf]
  | conditional condition ifTrue ifFalse _ => by
      rw [toSexp, symbolNames, tagged]
      refine .of_iff (.bind (interns_intern _) fun _ => .bind (toSexp_interns condition) fun _ =>
        .bind (toSexp_interns ifTrue) fun _ => .bind (toSexp_interns ifFalse) fun _ =>
          interns_pure _) (by simp) fun name _ => ?_
      simp [Value.tagged, Value.symbolNames, Value.allSymbolNames]
  | identifier name position => by
      rw [toSexp, symbolNames]
      exact interns_name name position
  | implicitSelf _ => interns_pure _
  | literal value _ | string value _ | symbol value _ => by
      refine .of_iff (interns_leaf _ [value]) ?_ fun _ _ => Iff.rfl
      simp [Value.allSymbolNames, symbolNames]
  | falseLiteral _ | nilLiteral _ | trueLiteral _ => interns_leaf _ []

theorem allToSexp_interns : (nodes : List Node) →
    (allToSexp nodes).Interns (allSymbolNames nodes) (Value.allSymbolNames (allTagged nodes))
  | [] => interns_pure _
  | node :: rest => by
      rw [allToSexp, allSymbolNames, allTagged]
      refine .of_iff (.bind (toSexp_interns node) fun _ => .bind (allToSexp_interns rest) fun _ =>
        interns_pure _) (by simp) fun name _ => ?_
      simp [Value.allSymbolNames]

end

/-! ## What a tree holds is written -/

@[simp] theorem mem_symbolNames_tagged {name tag : String} {children : List Value} :
    name ∈ (Value.tagged tag children).symbolNames ↔
      name = tag ∨ name ∈ Value.allSymbolNames children := by
  rw [Value.tagged, Value.symbolNames, List.mem_cons]

@[simp] theorem mem_allSymbolNames_cons {name : String} {value : Value} {rest : List Value} :
    name ∈ Value.allSymbolNames (value :: rest) ↔
      name ∈ value.symbolNames ∨ name ∈ Value.allSymbolNames rest := by
  rw [Value.allSymbolNames, List.mem_append]

mutual

theorem symbolNames_subset :
    (node : Node) → node.Writable → node.symbolNames ⊆ node.tagged.symbolNames
  | assignment _ value _ => fun able name mem => by
      have below : name ∈ value.tagged.symbolNames := symbolNames_subset value able mem
      simp [tagged, below]
  | block nodes _ => fun able name mem => by
      have below : name ∈ Value.allSymbolNames (allTagged nodes) :=
        allSymbolNames_subset nodes able mem
      simp [tagged, below]
  | call receiver message args _ => fun ⟨able, able'⟩ name mem => by
      rw [tagged, mem_symbolNames_tagged, mem_allSymbolNames_cons, mem_allSymbolNames_cons]
      rcases List.mem_append.mp mem with mem | mem
      · rcases List.mem_cons.mp mem with here | mem
        · exact .inr (.inr (.inl (List.mem_singleton.mpr here)))
        · exact .inr (.inl (symbolNames_subset receiver able mem))
      · exact .inr (.inr (.inr (allSymbolNames_subset args able' mem)))
  | definition _ params body _ => fun ⟨names, able⟩ name mem => by
      rw [symbolNames, (AllNames.silent names).2, List.nil_append] at mem
      have below : name ∈ Value.allSymbolNames (allTagged body) :=
        allSymbolNames_subset body able mem
      cases body with
      | nil => cases mem
      | cons => simp [tagged, below]
  | conditional condition ifTrue ifFalse _ => fun ⟨able, able', able''⟩ name mem => by
      rw [tagged, mem_symbolNames_tagged, mem_allSymbolNames_cons, mem_allSymbolNames_cons,
        mem_allSymbolNames_cons]
      rcases List.mem_append.mp mem with mem | mem
      · rcases List.mem_append.mp mem with mem | mem
        · exact .inr (.inl (symbolNames_subset condition able mem))
        · exact .inr (.inr (.inl (symbolNames_subset ifTrue able' mem)))
      · exact .inr (.inr (.inr (.inl (symbolNames_subset ifFalse able'' mem))))
  | literal _ _ | string _ _ | symbol _ _ => fun _ name mem => by
      rw [tagged, mem_symbolNames_tagged, mem_allSymbolNames_cons]
      exact .inr (.inl mem)
  | falseLiteral _ | identifier .. | implicitSelf _ | nilLiteral _ | trueLiteral _ =>
      fun _ => List.nil_subset _

theorem allSymbolNames_subset : (nodes : List Node) → AllWritable nodes →
    allSymbolNames nodes ⊆ Value.allSymbolNames (allTagged nodes)
  | [] => fun _ => List.nil_subset _
  | node :: rest => fun ⟨able, others⟩ name mem => by
      rw [allTagged, mem_allSymbolNames_cons]
      exact (List.mem_append.mp mem).imp (fun mem => symbolNames_subset node able mem)
        fun mem => allSymbolNames_subset rest others mem

end

end Node

end RubyReader
