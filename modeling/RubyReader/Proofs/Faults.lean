/-
# `Faults` — the one place where the reader is at fault

A rule is only handed tokens that it reads, so none says that it was handed another one.
What is left is a parameter that is no name: it is read as whatever starts like that, and
then refused as a node of another kind.  Parameters are only asked for in definitions, so
an internal error comes from the parameters of a `def` and from nowhere else
(`internal_fault`), and there is none without a `def` among the tokens.
-/
import Mathlib
import RubyReader.Proofs.Reading.Raises
import RubyReader.Proofs.Reading.Steps

namespace RubyReader

/-! ## Calls inside a definition -/

/-- Whether a goal is a list of parameters. -/
def Goal.IsParameterList (goal : Goal) : Prop := goal = .parameters ∨ goal = .bareParameters

/-- A stack of goals inside the definition that is open around it: lists of parameters
inside each other, and the method that they belong to. -/
def Encloses (definition : Call) (stack : List Goal) : Prop :=
  definition.goal = .leading .definition ∧
    ∃ lists, (∀ list ∈ lists, list.IsParameterList) ∧
      stack = lists ++ .method :: definition.stack

namespace Call

variable {calls : List Call} {start call : Call}

theorem mem_of_leads (mem : start ∈ calls) (leads : start.Leads calls call) : call ∈ calls := by
  cases leads with
  | refl => exact mem
  | tail _ asks => exact asks.2

theorem starts_of_leads (starts : start.goal.Starts start.parser.cursor)
    (leads : start.Leads calls call) : call.goal.Starts call.parser.cursor := by
  cases leads with
  | refl => exact starts
  | tail _ asks => exact asks.1.starts

/-- A method, or a list of its parameters, is only called for from a definition. -/
theorem exists_definition (leads : start.Leads calls call)
    (outside : start.goal ≠ .method ∧ ¬ start.goal.IsParameterList)
    (inside : call.goal = .method ∨ call.goal.IsParameterList) :
    ∃ definition, start.Leads calls definition ∧ Encloses definition call.stack ∧
      definition.parser.cursor.Onward call.parser.cursor := by
  induction leads with
  | refl => exact absurd inside (not_or.mpr outside)
  | @tail outer inner leads asks ih =>
      obtain ⟨asks, -⟩ := asks
      have asked := asks.asked
      have longer (list : inner.goal.IsParameterList)
          (within : outer.goal = .method ∨ outer.goal.IsParameterList) :
          ∃ definition, start.Leads calls definition ∧ Encloses definition inner.stack ∧
            definition.parser.cursor.Onward inner.parser.cursor := by
        obtain ⟨definition, from', ⟨isDefinition, lists, areLists, stack⟩, onward⟩ := ih within
        refine ⟨definition, from', ⟨isDefinition, inner.goal :: lists, ?_, ?_⟩,
          onward.trans asks.onward⟩
        · exact List.forall_mem_cons.mpr ⟨list, areLists⟩
        · rw [Call.stack, asks.around_eq, stack, List.cons_append]
      rcases inside with method | list
      · rw [method] at asked
        refine ⟨outer, leads, ⟨asked, [], by simp, ?_⟩, asks.onward⟩
        rw [Call.stack, method, asks.around_eq, List.nil_append]
      · rcases id list with parameters | parameters
        · rw [parameters] at asked
          exact longer list (asked.imp id Or.inl)
        · rw [parameters] at asked
          exact longer list (asked.imp id Or.inr)

theorem exists_definition_of_parameter (leads : start.Leads calls call)
    (outside : start.goal ≠ .method ∧ ¬ start.goal.IsParameterList)
    (noStart : start.goal ≠ .parameter) (parameter : call.goal = .parameter) :
    ∃ definition, start.Leads calls definition ∧ Encloses definition call.around ∧
      definition.parser.cursor.Onward call.parser.cursor := by
  cases leads with
  | refl => exact absurd parameter noStart
  | tail leads asks =>
      have asked := asks.1.asked
      rw [parameter] at asked
      obtain ⟨definition, from', encloses, onward⟩ :=
        exists_definition leads outside (.inr asked)
      refine ⟨definition, from', ?_, onward.trans asks.1.onward⟩
      rwa [asks.1.around_eq]

end Call

/-! ## A parameter that is no name -/

open Routine in
/-- The rule of a parameter is at fault only for one that is no name: it is read as what
starts with its token, and is a node of another kind. -/
theorem Grammar.raises_parameter {nested : Reader} {p q : Parser} {fault : Fault}
    (raises : parameter.Raises nested p (.internal fault) q) :
    ∃ form node, p.token.kind ≠ .identifier ∧ p.token.kind.leading? = some form ∧
      nested (.leading form) p node q ∧
      fault = .unexpectedNode .identifier node.type node.position := by
  unfold parameter at raises
  rw [raises_currentToken] at raises
  split at raises
  · rw [raises_declareLocal] at raises
    split at raises
    · exact raises.elim
    · cases raises.1
  · rename_i noName
    split at raises
    · rename_i form leads
      obtain ⟨node, p', read, e, rfl⟩ := raises
      exact ⟨form, node, noName, leads, read, ParseError.internal.inj e⟩
    · cases raises.1

/-- Only a parameter is at fault by itself. -/
theorem Call.Fails.of_internal {limit : Option Nat} {call : Call} {fault : Fault} {c : Cursor}
    (fails : call.Fails limit (.internal fault) c)
    (starts : call.goal.Starts call.parser.cursor) :
    call.goal = .parameter ∧
      ∃ form node q, call.parser.token.kind ≠ .identifier ∧
        call.parser.token.kind.leading? = some form ∧
        call.parser.read limit (.leading form) = (.ok node, q) ∧ q.cursor = c ∧
        fault = .unexpectedNode .identifier node.type node.position := by
  have goalFails := fails.fails starts
  obtain ⟨goal, p, around⟩ := call
  cases goalFails with
  | noName =>
      rcases fails with ⟨refused, -⟩ | ⟨q, raises, rfl⟩
      · cases refused
      · obtain ⟨form, node, noName, leads, read, e⟩ := Grammar.raises_parameter raises
        exact ⟨rfl, form, node, q, noName, leads, Parser.read_eq_ok_iff.mpr read, rfl, e⟩

namespace Parser

variable {tokens : List Token} {scope symbols : Names} {steps : List (Step × Names)} {step : Step}
  {caller : Names} {fault : Fault}

/-- Whatever the tokens and the steps made on them, an internal error is that of a parameter
of a definition that is no name, but could be read as what starts with its token. -/
theorem internal_fault
    (failed : (((ofTokens tokens scope symbols).after steps).perform caller step).result
      = .error (.internal fault)) :
    let p := (ofTokens tokens scope symbols).after steps
    ∃ definition ∈ p.callsOf caller step, ∃ parameter ∈ p.callsOf caller step, ∃ form node q,
      definition.parser.token.kind = .kwDef ∧ parameter.goal = .parameter ∧
      Encloses definition parameter.around ∧
      definition.parser.cursor.Onward parameter.parser.cursor ∧
      parameter.parser.token.kind ≠ .identifier ∧
      parameter.parser.token.kind.leading? = some form ∧
      parameter.parser.read (some nestingLimit) (.leading form) = (.ok node, q) ∧
      q.cursor = (p.perform caller step).parser.cursor ∧
      fault = .unexpectedNode .identifier node.type node.position ∧
      ∃ token ∈ tokens, token.kind = .kwDef := by
  intro p
  obtain ⟨q', found⟩ := error_of_perform failed
  have stops : (p.perform caller step).parser.cursor = q'.cursor := by
    rw [perform_eq, cursor_outcome, found]
  obtain ⟨parameter, mem, leads, starts, fails⟩ := exists_failing_call (step.starts _) found
  obtain ⟨isParameter, form, node, q, noName, leading, read, same, e⟩ := fails.of_internal starts
  have outside : step.goal ≠ .method ∧ ¬ step.goal.IsParameterList ∧ step.goal ≠ .parameter := by
    cases step <;> simp [Step.goal, Goal.IsParameterList]
  obtain ⟨definition, from', encloses, onward⟩ :=
    Call.exists_definition_of_parameter leads ⟨outside.1, outside.2.1⟩ outside.2.2 isParameter
  have kwDef : definition.parser.token.kind = .kwDef := by
    have starts := Call.starts_of_leads (step.starts _) from'
    rw [encloses.1] at starts
    exact TokenKind.startsWith_of_leading starts
  have first : ⟨step.goal, p.ready caller step, []⟩ ∈ p.callsOf caller step :=
    mem_callsWithin_self (attempt_eq_read ..)
  have passed : (Cursor.ofTokens tokens).Onward definition.parser.cursor := by
    have passed := Call.onward_of_leads from'
    rw [cursor_ready] at passed
    exact (after_onward (ofTokens tokens scope symbols) steps).trans passed
  have given := token_mem_of_onward passed (by simp [kwDef])
  exact ⟨definition, Call.mem_of_leads first from', parameter, mem, form, node, q, kwDef,
    isParameter, encloses, onward, noName, leading, read, same.trans stops.symm, e, _, given, kwDef⟩

/-- The tokens of `def f ( 1`. -/
def numberParameter : List Token :=
  [⟨.kwDef, "def", ⟨1, 1⟩, false⟩, ⟨.identifier, "f", ⟨1, 5⟩, false⟩, ⟨.lparen, "(", ⟨1, 7⟩, false⟩,
    ⟨.integer, "1", ⟨1, 9⟩, false⟩]

/-- An expression that begins there has a number for a parameter. -/
theorem internal_fault_of_numberParameter :
    let p := ofTokens numberParameter .empty .empty
    (p.perform .empty (.expression .sum)).result
        = .error (.internal (.unexpectedNode .identifier .literal ⟨1, 9⟩)) ∧
      (∃ definition ∈ p.callsOf .empty (.expression .sum),
        definition.parser.token.kind = .kwDef) ∧
      ∃ token ∈ numberParameter, token.kind = .kwDef := by
  have failed : ((ofTokens numberParameter .empty .empty).perform .empty (.expression .sum)).result
      = .error (.internal (.unexpectedNode .identifier .literal ⟨1, 9⟩)) := by cbv
  obtain ⟨definition, mem, -, -, -, -, -, kwDef, -, -, -, -, -, -, -, -, given⟩ :=
    @internal_fault numberParameter .empty .empty [] (.expression .sum) .empty _ failed
  exact ⟨failed, ⟨definition, mem, kwDef⟩, given⟩

end Parser

end RubyReader
