/-
# `Complete` — what has a derivation is read

Each rule of derivations is a way through a routine, so its phrase is read if
those inside it are.  With the other direction the two agree:

    read_eq_ok_iff   p.read limit goal = (.ok a, q) ↔ Reads limit goal p a q
-/
import RubyReader.Proofs.Reading.Sound

namespace RubyReader

namespace Parser

variable {limit : Option Nat} {p q : Parser}

/-- What `read` reads, as a relation. -/
def ReadAs (limit : Option Nat) : Reader := fun goal p a q => p.read limit goal = (.ok a, q)

theorem run_of_returns {α : Type} {r : Routine α} {a : α} (h : r.Returns (ReadAs limit) p a q) :
    r.run (fun inner p => some (p.read limit inner)) p = some (.ok a, q) :=
  Routine.run_eq_ok_iff.mpr (h.mono fun _ _ _ _ found => congrArg some found)

theorem readAs_of_returns {goal : Goal} {a : goal.Result}
    (plain : ∀ body, goal.around limit body = body)
    (h : goal.routine.Returns (ReadAs limit) p a q) : ReadAs limit goal p a q := by
  have eq := read_eq limit goal p
  rw [plain, run_of_returns h] at eq
  exact Option.some.inj eq

theorem readAs_expression {min : Precedence} {node : Node} (room : p.isFull limit = false)
    (h : (Grammar.expressionFrom min).Returns (ReadAs limit) p.opened node q) :
    ReadAs limit (.expression min) p node q.closed := by
  have eq := read_eq limit (.expression min) p
  simp only [Goal.around, room, Bool.false_eq_true, ↓reduceIte, Goal.routine, run_of_returns h,
    Option.map_some, Option.some.injEq] at eq
  exact eq

theorem readAs_method {params body : List Node}
    (h : Grammar.method.Returns (ReadAs limit) (p.withScope .empty) (params, body) q) :
    ReadAs limit .method p (params, body) (q.withScope p.scope) := by
  have eq := read_eq limit .method p
  simp only [Goal.around, Goal.routine, run_of_returns h, Option.map_some, Option.some.injEq] at eq
  exact eq

theorem not_any_of_afterParen (h : p.afterParen = false) :
    ¬ (p.cursor.previous?.any fun token => decide (token.kind = .rparen)) = true :=
  Bool.eq_false_iff.mp h

open Routine Grammar

/-- Every derivation is the course of a reading. -/
theorem readAs_of_reads {goal : Goal} {a : goal.Result} (h : Reads limit goal p a q) :
    ReadAs limit goal p a q := by
  induction h with
  | trueLiteral kind | falseLiteral kind =>
      refine readAs_of_returns (fun _ => rfl) ?_
      simp [Goal.routine, leading, boolean, returns_take, returns_pure, kind]
  | nilLiteral kind =>
      refine readAs_of_returns (fun _ => rfl) ?_
      simp [Goal.routine, leading, nil, returns_take, returns_pure, kind]
  | number written =>
      refine readAs_of_returns (fun _ => rfl) ?_
      simp [Goal.routine, leading, Grammar.number, returns_currentToken, returns_numeral, written,
        returns_step, returns_pure]
  | symbol kind =>
      refine readAs_of_returns (fun _ => rfl) ?_
      simp [Goal.routine, leading, symbolLiteral, returns_take, returns_symbol, returns_pure, kind]
  | string kind =>
      refine readAs_of_returns (fun _ => rfl) ?_
      simp [Goal.routine, leading, stringLiteral, returns_take, returns_pure, kind]
  | @name p kind known =>
      refine readAs_of_returns (fun _ => rfl) ?_
      have ahead : p.cursor.next = p.advance.token := next_eq (by simp [kind])
      simp [Goal.routine, leading, Grammar.name, returns_currentToken, returns_nextToken,
        returns_step, returns_knows, returns_pure, kind, ahead, Names.contains_iff, known]
  | @selfCall p kind unknown target alone =>
      refine readAs_of_returns (fun _ => rfl) ?_
      have ahead : p.cursor.next = p.advance.token := next_eq (by simp [kind])
      simp [Goal.routine, leading, Grammar.name, Grammar.selfCall, returns_currentToken,
        returns_nextToken, returns_step, returns_knows, returns_symbol, returns_bareArgumentList,
        returns_pure, kind, ahead, Names.contains_iff, unknown, target, alone, Identifier.name]
  | @selfCallWith p q args kind unknown target begins _ list =>
      refine readAs_of_returns (fun _ => rfl) ?_
      have ahead : p.cursor.next = p.advance.token := next_eq (by simp [kind])
      show Grammar.name.Returns _ _ _ _
      unfold Grammar.name Grammar.selfCall
      rw [returns_currentToken, if_pos kind, returns_nextToken, returns_step, returns_knows,
        if_neg (by simp [Names.contains_iff, unknown, ahead, target]), returns_symbol,
        returns_bareArgumentList]
      exact Or.inl ⟨begins, args, q, list, rfl, rfl⟩
  | emptyGroup opening closing =>
      refine readAs_of_returns (fun _ => rfl) ?_
      simp [Goal.routine, leading, Grammar.group, returns_expect, returns_skipLineEnds,
        returns_eat, returns_pure, opening, closing]
  | @group p q node opening more _ closing inner =>
      refine readAs_of_returns (fun _ => rfl) ?_
      show Grammar.group.Returns _ _ _ _
      unfold Grammar.group
      rw [returns_expect, returns_skipLineEnds, returns_eat]
      refine ⟨opening, Or.inr ⟨more, node, q, inner, ?_⟩⟩
      exact returns_expect.mpr ⟨closing, rfl, rfl⟩
  | definition opening named _ method =>
      refine readAs_of_returns (fun _ => rfl) ?_
      show Grammar.definition.Returns _ _ _ _
      unfold Grammar.definition
      rw [returns_expect, returns_expect]
      exact ⟨opening, named, _, _, method, rfl, rfl⟩
  | @assignment p q target position value sign _ found =>
      refine readAs_of_returns (fun _ => rfl) ?_
      exact returns_expect.mpr ⟨sign, value, q, found, rfl, rfl⟩
  | @emptyCall p callee position after opening closing =>
      refine readAs_of_returns (fun _ => rfl) ?_
      show (Grammar.call (.identifier callee position)).Returns _ _ _ _
      unfold Grammar.call
      rw [returns_previousToken, if_neg (not_any_of_afterParen after)]
      exact returns_argumentList.mpr ⟨opening, Or.inl ⟨closing, rfl, rfl⟩⟩
  | @call p q callee position args after opening more _ list =>
      refine readAs_of_returns (fun _ => rfl) ?_
      show (Grammar.call (.identifier callee position)).Returns _ _ _ _
      unfold Grammar.call
      rw [returns_previousToken, if_neg (not_any_of_afterParen after)]
      exact returns_argumentList.mpr ⟨opening, Or.inr ⟨more, args, q, list, rfl, rfl⟩⟩
  | @emptyCallAgain p receiver message position after opening closing =>
      refine readAs_of_returns (fun _ => rfl) ?_
      show (Grammar.call (.call receiver message [] position)).Returns _ _ _ _
      unfold Grammar.call
      rw [returns_previousToken, if_neg (not_any_of_afterParen after)]
      exact returns_argumentList.mpr ⟨opening, Or.inl ⟨closing, rfl, rfl⟩⟩
  | @callAgain p q receiver message position args after opening more _ list =>
      refine readAs_of_returns (fun _ => rfl) ?_
      show (Grammar.call (.call receiver message [] position)).Returns _ _ _ _
      unfold Grammar.call
      rw [returns_previousToken, if_neg (not_any_of_afterParen after)]
      exact returns_argumentList.mpr ⟨opening, Or.inr ⟨more, args, q, list, rfl, rfl⟩⟩
  | @operator p q left right name known _ found =>
      refine readAs_of_returns (fun _ => rfl) ?_
      show (Grammar.operator _).Returns _ _ _ _
      unfold Grammar.operator
      rw [returns_take, known]
      exact ⟨right, q, found, rfl, rfl⟩
  | @signedNumber p q left right value signed written _ found =>
      refine readAs_of_returns (fun _ => rfl) ?_
      show (Grammar.signedNumber _).Returns _ _ _ _
      unfold Grammar.signedNumber
      rw [returns_take, if_pos signed]
      exact returns_numeral.mpr ⟨value, written, right, q, found, rfl, rfl⟩
  | send dot named alone =>
      refine readAs_of_returns (fun _ => rfl) ?_
      show (Grammar.send _).Returns _ _ _ _
      unfold Grammar.send
      rw [returns_expect, returns_expect, returns_symbol, returns_bareArgumentList]
      exact ⟨dot, named, Or.inr ⟨alone, rfl, rfl⟩⟩
  | @sendWith p q left args dot named begins _ list =>
      refine readAs_of_returns (fun _ => rfl) ?_
      show (Grammar.send _).Returns _ _ _ _
      unfold Grammar.send
      rw [returns_expect, returns_expect, returns_symbol, returns_bareArgumentList]
      exact ⟨dot, named, Or.inl ⟨begins, args, q, list, rfl, rfl⟩⟩
  | @ternary p p₁ q left ifTrue ifFalse sign _ colon _ first second =>
      refine readAs_of_returns (fun _ => rfl) ?_
      refine returns_expect.mpr ⟨sign, ifTrue, p₁, first, ?_⟩
      exact returns_expect.mpr ⟨colon, ifFalse, q, second, rfl, rfl⟩
  | @expression min form p p₁ q left node room starts _ _ first rest =>
      refine readAs_expression room ?_
      unfold Grammar.expressionFrom
      rw [returns_skipLineEnds, returns_currentToken,
        show p.opened.skipLines.token.kind.leading? = some form from starts]
      exact ⟨left, p₁, first, returns_phrase.mpr rest⟩
  | @longer min form p p₁ q left longer node tighter goesOn _ _ first rest =>
      refine readAs_of_returns (fun _ => rfl) ?_
      show (Grammar.continuation _ _).Returns _ _ _ _
      unfold Grammar.continuation
      rw [returns_currentToken, if_pos tighter, goesOn]
      exact ⟨longer, p₁, first, returns_phrase.mpr rest⟩
  | @complete min p left stops =>
      refine readAs_of_returns (fun _ => rfl) ?_
      show (Grammar.continuation _ _).Returns _ _ _ _
      unfold Grammar.continuation
      rw [returns_currentToken]
      by_cases tighter : min < p.token.precedence
      · rw [if_pos tighter, stops tighter]
        exact ⟨rfl, rfl⟩
      · rw [if_neg tighter]
        exact ⟨rfl, rfl⟩
  | noStatement ends =>
      refine readAs_of_returns (fun _ => rfl) ?_
      show (Grammar.statements _).Returns _ _ _ _
      unfold Grammar.statements
      rw [returns_skipLineEnds, returns_currentToken, if_pos (by simpa using ends)]
      exact ⟨rfl, rfl⟩
  | @statement terminator p p₁ q node nodes more more' _ ends _ first rest =>
      refine readAs_of_returns (fun _ => rfl) ?_
      show (Grammar.statements _).Returns _ _ _ _
      unfold Grammar.statements
      rw [returns_skipLineEnds, returns_currentToken, if_neg (by simp [more, more'])]
      refine ⟨node, p₁, first, ?_⟩
      exact returns_endStatement.mpr ⟨ends, nodes, q, rest, rfl, rfl⟩
  | @lastBareArgument p q arg _ last first =>
      refine readAs_of_returns (fun _ => rfl) ?_
      refine ⟨arg, q, first, ?_⟩
      exact returns_eat.mpr (Or.inr ⟨last, rfl, rfl⟩)
  | @bareArgument p p₁ q arg args _ comma _ first rest =>
      refine readAs_of_returns (fun _ => rfl) ?_
      refine ⟨arg, p₁, first, ?_⟩
      exact returns_eat.mpr (Or.inl ⟨comma, args, q, rest, rfl, rfl⟩)
  | @lastArgument p q arg _ closing first =>
      refine readAs_of_returns (fun _ => rfl) ?_
      refine ⟨arg, q, first, ?_⟩
      have last : q.skipLines.token.kind ≠ .comma := by simp [closing]
      exact returns_eat.mpr (Or.inr ⟨last, returns_expect.mpr ⟨closing, rfl, rfl⟩⟩)
  | @argument p p₁ q arg args _ comma _ first rest =>
      refine readAs_of_returns (fun _ => rfl) ?_
      refine ⟨arg, p₁, first, ?_⟩
      exact returns_eat.mpr (Or.inl ⟨comma, args, q, rest, rfl, rfl⟩)
  | @methodAlone p q body ends _ closed inside =>
      refine readAs_method (returns_parameterList.mpr (Or.inl ⟨ends, ?_⟩))
      refine returns_endStatement.mpr ⟨ends, body, q, inside, ?_⟩
      exact returns_expect.mpr ⟨closed, rfl, rfl⟩
  | @methodNone p q body opening closing ends _ closed inside =>
      refine readAs_method (returns_parameterList.mpr (Or.inr (Or.inl ⟨opening, closing, ?_⟩)))
      refine returns_endStatement.mpr ⟨ends, body, q, inside, ?_⟩
      exact returns_expect.mpr ⟨closed, rfl, rfl⟩
  | @methodList p p₁ q params body opening more _ ends _ closed list inside =>
      refine readAs_method (returns_parameterList.mpr
        (Or.inr (Or.inr (Or.inl ⟨opening, more, params, p₁, list, ?_⟩))))
      refine returns_endStatement.mpr ⟨ends, body, q, inside, ?_⟩
      exact returns_expect.mpr ⟨closed, rfl, rfl⟩
  | @methodBare p p₁ q params body noParen more _ ends _ closed list inside =>
      refine readAs_method (returns_parameterList.mpr
        (Or.inr (Or.inr (Or.inr ⟨noParen, more, params, p₁, list, ?_⟩))))
      refine returns_endStatement.mpr ⟨ends, body, q, inside, ?_⟩
      exact returns_expect.mpr ⟨closed, rfl, rfl⟩
  | parameter named new =>
      refine readAs_of_returns (fun _ => rfl) ?_
      show Grammar.parameter.Returns _ _ _ _
      unfold Grammar.parameter
      rw [returns_currentToken, if_pos named, returns_declareLocal,
        if_pos (by simp [Names.contains_eq_false.mpr new])]
      exact ⟨rfl, rfl⟩
  | @lastParameter p q param _ closing first =>
      refine readAs_of_returns (fun _ => rfl) ?_
      refine ⟨param, q, first, ?_⟩
      have last : q.skipLines.token.kind ≠ .comma := by simp [closing]
      exact returns_eat.mpr (Or.inr ⟨last, returns_expect.mpr ⟨closing, rfl, rfl⟩⟩)
  | @furtherParameter p p₁ q param params _ comma _ first rest =>
      refine readAs_of_returns (fun _ => rfl) ?_
      refine ⟨param, p₁, first, ?_⟩
      exact returns_eat.mpr (Or.inl ⟨comma, params, q, rest, rfl, rfl⟩)
  | @lastBareParameter p q param _ last first =>
      refine readAs_of_returns (fun _ => rfl) ?_
      refine ⟨param, q, first, ?_⟩
      exact returns_eat.mpr (Or.inr ⟨last, rfl, rfl⟩)
  | @bareParameter p p₁ q param params _ comma _ first rest =>
      refine readAs_of_returns (fun _ => rfl) ?_
      refine ⟨param, p₁, first, ?_⟩
      exact returns_eat.mpr (Or.inl ⟨comma, params, q, rest, rfl, rfl⟩)

/-- A phrase is read as what its derivation says, and only so. -/
theorem read_eq_ok_iff {goal : Goal} {a : goal.Result} :
    p.read limit goal = (.ok a, q) ↔ Reads limit goal p a q := by
  constructor
  · intro found
    exact reads_of_attempt ((attempt_eq_read limit goal p).trans (congrArg some found))
  · exact readAs_of_reads

end Parser

end RubyReader
