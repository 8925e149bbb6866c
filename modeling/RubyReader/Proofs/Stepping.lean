/-
# `Stepping` — a program, one expression after another

A program skips the line ends behind each of its statements and declares variables in the
scope of the parser; an expression skips the line ends in front of it and declares variables
in a scope of its caller.  Both read the same statements: after each of them the two parsers
stand in front of the same tokens, up to line ends, and the scopes hold the same variables
(`performAll_of_statements`).  Behind the last statement the next expression finds the end
of the input.
-/
import RubyReader.Proofs.Closing
import RubyReader.Proofs.Reading.Steps
import RubyReader.Proofs.Sessions

namespace RubyReader

/-! ## Line ends in front of an expression -/

section

variable {limit : Option Nat} {min : Precedence} {p q : Parser} {node : Node}

theorem Reads.expression_of_skipLines (h : Reads limit (.expression min) p.skipLines node q) :
    Reads limit (.expression min) p node q := by
  cases h with
  | expression room leads first rest =>
      have lines : p.skipLines.opened.skipLines = p.opened.skipLines :=
        Parser.skipLines_skipLines p.opened
      rw [lines] at first
      exact .expression room (by rwa [Parser.skipLines_skipLines] at leads) first rest

/-- Where no expression begins, the token behind the line ends is blamed. -/
theorem Parser.read_expression_of_leads (room : p.isFull limit = false)
    (leads : p.skipLines.token.kind.leading? = none) :
    p.read limit (.expression min)
      = (.error (.malformed (.blame (.unexpected p.skipLines.token .expression)
          p.skipLines.token)), p.skipLines) := by
  have run : (Goal.expression min).routine.run (fun goal q => some (q.read limit goal)) p.opened
      = some (.error (.malformed (.blame (.unexpected p.skipLines.token .expression)
          p.skipLines.token)), p.opened.skipLines) := by
    have here : p.opened.cursor.skipLines.current.kind.leading? = none := leads
    simp only [Goal.routine, Grammar.expressionFrom, bind, Routine.bind, Routine.skipLineEnds,
      Routine.currentToken, Routine.run, here]
    rfl
  have around := Goal.around_of_room
    (show (Goal.expression min).isRefused limit p = false from room) run
  rw [← Parser.read_eq] at around
  exact Option.some.inj around

end

/-! ## Statements, and calls that read them -/

namespace Parser

/-- The scope of the caller, and the parser, after steps that thread one scope through. -/
def thread (scope : Names) (p : Parser) : List Step → Names × Parser
  | [] => (scope, p)
  | step :: rest => (p.perform scope step).parser.thread (p.perform scope step).scope rest

/-- Two parsers that are, behind the line ends in front of them, in front of the same tokens,
where the second one is to read with the variables of the first. -/
def Abreast (p p' : Parser) : Prop :=
  p.skipLines.Facing (some nestingLimit) (fun _ => True) (p'.withScope p.scope).skipLines

variable {p p' q : Parser} {node : Node} {nodes : List Node}

theorem Abreast.skipLines (same : p.Abreast p') : p.skipLines.Abreast p' := by
  rwa [Abreast, skipLines_skipLines]

/-- A statement is read by one call, which declares the same variables in the scope of the
caller, and leaves the scope of the parser alone. -/
theorem Abreast.perform (same : p.Abreast p')
    (reads : Reads (some nestingLimit) (.expression .lowest) p.skipLines node q) :
    ∃ q', p'.perform p.scope (.expression .lowest) = ⟨.ok node, q.scope, q'⟩ ∧
      q'.scope = p'.scope ∧ q.Abreast q' := by
  obtain ⟨q', reads', ⟨matching, names, grown, grown'⟩⟩ := reads.facing same
  have scope_eq : q'.scope = q.scope := Names.ext (grown'.trans grown.symm)
  have found : p'.expression .lowest p.scope = (.ok node, q.scope, q'.withScope p'.scope) :=
    expression_eq_ok_iff.mpr ⟨q', reads'.expression_of_skipLines, scope_eq.symm, rfl⟩
  refine ⟨q'.withScope p'.scope, ?_, rfl, ?_⟩
  · rw [Parser.perform, found]
  · have behind := matching.toFacing.skipLines
    have same' : q' = (q'.withScope p'.scope).withScope q.scope := by rw [← scope_eq]; rfl
    rwa [same'] at behind

/-- The statements up to the end of the input are read by as many calls. -/
theorem performAll_of_statements (same : p.Abreast p')
    (h : Reads (some nestingLimit) (.statements .eof) p nodes q) :
    let asked := List.replicate nodes.length (Step.expression .lowest)
    ∃ q', (p'.performAll p.scope asked).map (·.result) = nodes.map .ok ∧
      (∀ outcome ∈ p'.performAll p.scope asked, outcome.parser.scope = p'.scope) ∧
      p'.thread p.scope asked = (q.scope, q') ∧ q'.scope = p'.scope ∧ q.Abreast q' := by
  induction nodes generalizing p p' with
  | nil =>
      cases h with
      | noStatement => exact ⟨p', rfl, (fun _ mem => nomatch mem), rfl, rfl, same.skipLines⟩
  | cons node nodes ih =>
      cases h with
      | @statement _ _ p₁ _ _ _ _ _ reads _ others =>
          obtain ⟨p₁', performed, untouched, abreast⟩ := same.perform reads
          obtain ⟨q', results, scopes, threaded, kept, final⟩ := ih abreast.skipLines others
          rw [scope_skipLines] at results scopes threaded
          rw [List.length_cons, List.replicate_succ]
          intro asked
          refine ⟨q', ?_, ?_, ?_, kept.trans untouched, final⟩
          · simp only [asked, performAll, performed, List.map_cons, results]
          · intro outcome mem
            simp only [asked, performAll, performed, List.mem_cons] at mem
            rcases mem with rfl | mem
            · exact untouched
            · exact (scopes outcome mem).trans untouched
          · simp only [asked, thread, performed, threaded]

theorem thread_onward (caller : Names) (p : Parser) (steps : List Step) :
    p.cursor.Onward (p.thread caller steps).2.cursor := by
  induction steps generalizing caller p with
  | nil => exact .refl _
  | cons step rest ih => exact (perform_onward caller p step).trans (ih _ _)

/-! ## Behind the last statement -/

/-- Where no expression begins, a call stops behind the line ends, and changes no scope. -/
theorem perform_of_leads {min : Precedence} (caller : Names) (room : p.depth < nestingLimit)
    (leads : p.skipLines.token.kind.leading? = none) :
    p.perform caller (.expression min)
      = ⟨.error (.malformed (.blame (.unexpected p.skipLines.token .expression)
          p.skipLines.token)), caller, p.skipLines⟩ := by
  have notFull : (p.withScope caller).isFull (some nestingLimit) = false :=
    decide_eq_false (Nat.not_le.mpr room)
  rw [Parser.perform, expression, expressionWithin, read_expression_of_leads notFull leads]
  rfl

variable {tokens : List Token} {scope symbols : Names}

/-- A program with `n` statements is read by `n` calls for an expression, which thread through
the scope that the program begins with: they give its statements, and that scope becomes the
one that the program ends with, while the scope of the parser stays what it was.  One call
more fails at the first end of the input. -/
theorem program_stepped (accepted : (ofTokens tokens scope symbols).program = (.ok node, q))
    (own symbols' : Names) :
    let fresh := ofTokens tokens own symbols'
    let all := fresh.cursor.tokens
    ∃ nodes r last, node = .block nodes fresh.token.position ∧
      let asked := List.replicate nodes.length (Step.expression .lowest)
      (fresh.performAll scope asked).map (·.result) = nodes.map .ok ∧
      (∀ outcome ∈ fresh.performAll scope asked, outcome.parser.scope = own) ∧
      fresh.thread scope asked = (q.scope, r) ∧ r.scope = own ∧
      all[firstEnd all]? = some last ∧
      let further := r.perform q.scope (.expression .lowest)
      further.result = .error (.malformed (.blame (.unexpected last .expression) last)) ∧
      further.scope = q.scope ∧ further.parser.scope = own ∧
      further.parser.cursor.index = firstEnd all := by
  intro fresh all
  obtain ⟨nodes, rfl, reads⟩ := program_eq_ok_iff.mp accepted
  have same : (ofTokens tokens scope symbols).Abreast fresh :=
    Facing.skipLines ⟨rfl, .inr rfl, fun _ _ => Iff.rfl, fun _ _ _ => trivial⟩
  obtain ⟨r, results, scopes, threaded, kept, abreast⟩ := performAll_of_statements same reads
  have ends : q.token.kind = .eof := reads.statements_end.elim id id
  have final : q.skipLines = q := skipLines_of_ne (by rw [ends]; decide)
  rw [Abreast, final] at abreast
  have last_eq : r.skipLines.token.kind = .eof := by
    have here : r.skipLines.token = q.token := abreast.token_eq
    rw [here, ends]
  have room : r.depth < nestingLimit := by
    have depth : r.depth = q.depth := abreast.depth_eq.resolve_left (by simp)
    rw [depth, reads.depth_eq]
    exact (by decide : 0 < nestingLimit)
  have further : r.perform q.scope (.expression .lowest) = _ :=
    perform_of_leads q.scope room (by rw [last_eq]; rfl)
  have onward : fresh.cursor.Onward r.skipLines.cursor := by
    have onward := thread_onward scope fresh (List.replicate nodes.length (.expression .lowest))
    rw [show fresh.thread scope _ = (q.scope, r) from threaded] at onward
    exact onward.trans (Cursor.Onward.skipLines _)
  have index : r.skipLines.cursor.index = firstEnd all :=
    onward.index_eq_firstEnd Cursor.before_ofTokens last_eq
  refine ⟨nodes, r, r.skipLines.token, rfl, results, scopes, threaded, kept, ?_, ?_⟩
  · rw [← index, show all = _ from onward.tokens_eq.symm]
    exact Cursor.getElem?_index _
  · rw [further]
    exact ⟨rfl, rfl, kept, index⟩

/-- Two assignments and a method between them, with line ends behind: three calls read them
all, the scope of the caller gets the two variables, and the parser keeps its own. -/
theorem program_stepped_of_method :
    let tokens := (lex "x = 1\ndef m(a)\n  a\nend\n\ny = x\n").tokens
    let fresh := ofTokens tokens (.ofList ["z"]) .empty
    let asked := List.replicate 3 (Step.expression .lowest)
    ∃ nodes q r last, (ofTokens tokens .empty .empty).program = (.ok (.block nodes ⟨1, 1⟩), q) ∧
      (fresh.performAll .empty asked).map (·.result) = nodes.map .ok ∧
      fresh.thread .empty asked = (q.scope, r) ∧ q.scope.toList = ["x", "y"] ∧
      r.scope.toList = ["z"] ∧
      (r.perform q.scope (.expression .lowest)).result
        = .error (.malformed (.blame (.unexpected last .expression) last)) := by
  intro tokens fresh asked
  have place : fresh.token.position = ⟨1, 1⟩ := by
    show (ofTokens (lex "x = 1\ndef m(a)\n  a\nend\n\ny = x\n").tokens (.ofList ["z"])
      .empty).cursor.current.position = _
    cbv
  obtain ⟨node, q, accepted⟩ := exists_of_isOk
    ((ofTokens (lex "x = 1\ndef m(a)\n  a\nend\n\ny = x\n").tokens .empty .empty).program)
    (by cbv)
  have counted : (ofTokens (lex "x = 1\ndef m(a)\n  a\nend\n\ny = x\n").tokens .empty
      .empty).program.map (Except.map fun node => node.toStatements.length) (·.scope.toList)
        = (.ok 3, ["x", "y"]) := by
    cbv
  obtain ⟨nodes, r, last, rfl, results, -, threaded, kept, -, failed, -⟩ :=
    program_stepped accepted (.ofList ["z"]) .empty
  rw [accepted] at counted
  obtain ⟨count, names⟩ := Prod.mk.inj counted
  have length : nodes.length = 3 := Except.ok.inj count
  rw [length] at results threaded
  refine ⟨nodes, q, r, last, ?_, results, threaded, names, by rw [kept]; rfl, failed⟩
  rw [← place]
  exact accepted

end Parser

end RubyReader
