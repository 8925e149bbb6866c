/-
# `Accounts` — the symbols that reading interns

What is read accounts for the symbols that were interned: they are the messages of its calls and
the names of its symbols (`Reads.accounts`).  A message may be interned long before its call is
complete, and a call may be taken apart again, when it is given its arguments or becomes a
receiver; so of a node that is gone on from it is carried along that it is found again in what
comes of it.

Whether it succeeds or not, reading takes no symbol away (`Parser.read_keeps`).
-/
import RubyReader.Proofs.Reading.Around
import RubyReader.Proofs.Reading.Invariants
import RubyReader.Proofs.Tree.Symbols

namespace RubyReader

open Grammar (splitFirst)
open Node (mentioned allMentioned Plain AllPlain AllNames)

/-! ## What is read is plain -/

theorem Token.symbolNames_of_numeral {token : Token} {text : String} {value : Value}
    (h : token.numeral? text = some value) : value.symbolNames = [] := by
  unfold numeral? at h
  split at h
  · obtain ⟨n, -, rfl⟩ := Option.map_eq_some_iff.mp h
    rfl
  · obtain ⟨x, -, rfl⟩ := Option.map_eq_some_iff.mp h
    rfl
  · cases h

theorem Node.Plain.number {token : Token} {text : String} {value : Value} {position : Position}
    (h : token.numeral? text = some value) : Plain (.literal value position) :=
  ⟨trivial, Token.symbolNames_of_numeral h⟩

/-- What is read for a goal is plain, if what it goes on from is. -/
def Goal.Plain : (goal : Goal) → goal.Result → Prop
  | .expression _, node | .leading _, node => node.Plain
  | .following _ left, node | .continuation left _, node => left.Plain → node.Plain
  | .statements _, nodes | .bareArguments, nodes | .arguments, nodes => AllPlain nodes
  | .method, (params, body) => AllNames params ∧ AllPlain body
  | .parameter, param => AllNames [param]
  | .parameters, params | .bareParameters, params => AllNames params

variable {limit : Option Nat} {goal : Goal} {p q : Parser}

theorem Node.AllNames.cons {param : Node} {params : List Node} (h : AllNames [param])
    (h' : AllNames params) : AllNames (param :: params) := by
  intro other mem
  rcases List.mem_cons.mp mem with rfl | mem
  · exact h other List.mem_cons_self
  · exact h' other mem

theorem Reads.plain {a : goal.Result} (h : Reads limit goal p a q) : goal.Plain a := by
  induction h with
  | trueLiteral _ | falseLiteral _ | nilLiteral _ | symbol _ | string _ | name _ _
  | emptyGroup _ _ => exact ⟨trivial, rfl⟩
  | number written => exact .number written
  | selfCall _ _ _ _ => exact .call ⟨trivial, rfl⟩ .nil
  | selfCallWith _ _ _ _ _ args => exact .call ⟨trivial, rfl⟩ args
  | group _ _ _ _ inner => exact inner
  | definition _ _ _ method => exact .definition method.1 method.2
  | assignment _ _ value => exact fun _ => .assignment value
  | emptyCall _ _ _ => exact fun _ => .call ⟨trivial, rfl⟩ .nil
  | call _ _ _ _ args => exact fun _ => .call ⟨trivial, rfl⟩ args
  | emptyCallAgain _ _ _ => exact id
  | callAgain _ _ _ _ args => exact fun left => .call left.plain_receiver args
  | operator _ _ right => exact fun left => .call left (.cons right .nil)
  | signedNumber _ written _ right =>
      exact fun left => .call left (.cons (right (.number written)) .nil)
  | send _ _ _ => exact fun left => .call left .nil
  | sendWith _ _ _ _ args => exact fun left => .call left args
  | ternary _ _ _ _ ifTrue ifFalse => exact fun left => .conditional left ifTrue ifFalse
  | expression _ _ _ _ left rest => exact rest left
  | longer _ _ _ _ longer rest => exact fun left => rest (longer left)
  | complete _ => exact id
  | noStatement _ => exact .nil
  | statement _ _ _ _ _ first rest => exact .cons first rest
  | lastBareArgument _ _ arg | lastArgument _ _ arg => exact .cons arg .nil
  | bareArgument _ _ _ arg rest | argument _ _ _ arg rest => exact .cons arg rest
  | methodAlone _ _ _ body | methodNone _ _ _ _ _ body => exact ⟨.nil, body⟩
  | methodList _ _ _ _ _ _ params body | methodBare _ _ _ _ _ _ params body => exact ⟨params, body⟩
  | parameter _ _ =>
      intro param mem
      obtain rfl := List.mem_singleton.mp mem
      exact ⟨_, rfl⟩
  | lastParameter _ _ param | lastBareParameter _ _ param => exact param
  | furtherParameter _ _ _ param rest | bareParameter _ _ _ param rest => exact param.cons rest

/-! ## What is read accounts for the symbols -/

/-- The symbols that are new behind a goal are those that its result mentions; it mentions what
is gone on from. -/
def Goal.Accounts : (goal : Goal) → Parser → goal.Result → Parser → Prop
  | .expression _, p, node, q | .leading _, p, node, q | .parameter, p, node, q =>
    p.symbols.Gains node.mentioned q.symbols
  | .following _ left, p, node, q | .continuation left _, p, node, q =>
    left.mentioned ⊆ node.mentioned ∧
      ((∀ name ∈ left.mentioned, name ∈ p.symbols) → p.symbols.Gains node.mentioned q.symbols)
  | .statements _, p, nodes, q | .bareArguments, p, nodes, q | .arguments, p, nodes, q
  | .parameters, p, nodes, q | .bareParameters, p, nodes, q =>
    p.symbols.Gains (allMentioned nodes) q.symbols
  | .method, p, (params, body), q =>
    p.symbols.Gains (allMentioned params ++ allMentioned body) q.symbols

theorem Reads.accounts {a : goal.Result} (h : Reads limit goal p a q) : goal.Accounts p a q := by
  induction h with
  | trueLiteral _ | falseLiteral _ | nilLiteral _ | number _ | string _ | name _ _
  | emptyGroup _ _ | parameter _ _ | noStatement _ => exact .refl _
  | symbol _ | selfCall _ _ _ _ => exact Names.gains_insert _ _
  | selfCallWith _ _ _ _ _ args => exact (Names.gains_insert _ _).trans args
  | group _ _ _ _ inner => exact inner
  | definition _ _ _ method => exact method
  | assignment _ _ value => exact ⟨List.nil_subset _, fun _ => value⟩
  | emptyCall _ _ _ => exact ⟨List.nil_subset _, fun _ => Names.gains_insert _ _⟩
  | call _ _ _ _ args => exact ⟨List.nil_subset _, fun _ => (Names.gains_insert _ _).trans args⟩
  | emptyCallAgain _ _ _ => exact ⟨List.Subset.refl _, fun known => .of_known known⟩
  | callAgain _ _ _ _ args =>
      refine ⟨by simp [mentioned, allMentioned], fun known => args.with_known known fun name => ?_⟩
      simp [mentioned, allMentioned, or_assoc]
  | operator _ _ right =>
      refine ⟨by simp [mentioned], fun known => ?_⟩
      refine ((Names.gains_insert _ _).trans right).with_known known fun name => ?_
      simp [mentioned, or_left_comm]
  | signedNumber _ _ _ right =>
      obtain ⟨-, right⟩ := right
      have silent := right (List.forall_mem_nil _)
      refine ⟨by simp [mentioned], fun known => ?_⟩
      refine ((Names.gains_insert _ _).trans silent).with_known known fun name => ?_
      simp [mentioned, or_left_comm]
  | send _ _ _ =>
      refine ⟨by simp [mentioned], fun known => ?_⟩
      refine (Names.gains_insert _ _).with_known known fun name => ?_
      simp [mentioned, allMentioned, or_comm]
  | sendWith _ _ _ _ args =>
      refine ⟨by simp [mentioned], fun known => ?_⟩
      refine ((Names.gains_insert _ _).trans args).with_known known fun name => ?_
      simp [mentioned, or_left_comm]
  | ternary _ _ _ _ ifTrue ifFalse =>
      refine ⟨by simp [mentioned], fun known => ?_⟩
      refine (ifTrue.trans ifFalse).with_known known fun name => ?_
      simp [mentioned]
  | expression _ _ _ _ left rest =>
      obtain ⟨sub, rest⟩ := rest
      exact left.trans_of_subset (rest fun name mem => left.mem_of_gained mem) sub
  | longer _ _ _ _ longer rest =>
      obtain ⟨sub, longer⟩ := longer
      obtain ⟨sub', rest⟩ := rest
      refine ⟨List.Subset.trans sub sub', fun known => ?_⟩
      have gained := longer known
      exact gained.trans_of_subset (rest fun name mem => gained.mem_of_gained mem) sub'
  | complete _ => exact ⟨List.Subset.refl _, fun known => .of_known known⟩
  | statement _ _ _ _ _ first rest => exact first.trans rest
  | lastBareArgument _ _ arg | lastArgument _ _ arg =>
      show Names.Gains _ (allMentioned [_]) _
      rwa [Node.allMentioned_singleton]
  | bareArgument _ _ _ arg rest | argument _ _ _ arg rest => exact arg.trans rest
  | methodAlone _ _ _ body | methodNone _ _ _ _ _ body => exact body
  | methodList _ _ _ _ _ _ params body | methodBare _ _ _ _ _ _ params body =>
      exact params.trans body
  | lastParameter _ _ param | lastBareParameter _ _ param =>
      show Names.Gains _ (allMentioned [_]) _
      rwa [Node.allMentioned_singleton]
  | furtherParameter _ _ _ param rest | bareParameter _ _ _ param rest => exact param.trans rest

/-! ## Reading takes no symbol away -/

/-- Every symbol of the first parser is one of the second. -/
def Parser.Keeps (p q : Parser) : Prop := ∀ name ∈ p.symbols, name ∈ q.symbols

theorem Parser.Keeps.trans {p q r : Parser} (h : p.Keeps q) (h' : q.Keeps r) : p.Keeps r :=
  fun name mem => h' name (h name mem)

theorem Parser.keeps_intern (p : Parser) (name : String) : p.Keeps (p.intern name) :=
  fun _ mem => Names.mem_insert.mpr (.inl mem)

/-- A routine keeps the symbols if the phrases inside it do. -/
theorem Routine.run_keeps {α : Type}
    {nested : (goal : Goal) → Parser → Option (Outcome goal.Result)}
    (inside : ∀ goal p result q, nested goal p = some (result, q) → p.Keeps q) {r : Routine α}
    {p q : Parser} {result : Except ParseError α} (run : r.run nested p = some (result, q)) :
    p.Keeps q := by
  induction r generalizing p with
  | done a =>
      cases run
      exact fun _ mem => mem
  | fail e =>
      cases run
      exact fun _ mem => mem
  | current go ih => exact ih _ run
  | next go ih => exact ih _ run
  | previous go ih => exact ih _ run
  | advance go ih => exact @ih p.advance run
  | skipLines go ih => exact @ih p.skipLines run
  | isLocal name go ih => exact ih _ run
  | declare name go ih => exact @ih _ (p.declare name) run
  | intern name go ih => exact (p.keeps_intern name).trans (@ih (p.intern name) run)
  | read goal go ih =>
      rw [Routine.run] at run
      cases found : nested goal p with
      | none => simp [found] at run
      | some outcome =>
          obtain ⟨inner, q₁⟩ := outcome
          rw [found] at run
          have kept := inside goal p inner q₁ found
          cases inner with
          | error e =>
              obtain ⟨-, rfl⟩ := Prod.mk.inj (Option.some.inj run)
              exact kept
          | ok a => exact kept.trans (ih a run)

namespace Parser

theorem attempt_keeps {fuel : Nat} {goal : Goal} {p q : Parser}
    {result : Except ParseError goal.Result}
    (found : attempt limit fuel goal p = some (result, q)) : p.Keeps q := by
  induction fuel generalizing goal p q with
  | zero => cases found
  | succ fuel ih =>
      rw [attempt] at found
      rcases Goal.around_cases found with ⟨-, -, rfl⟩ | ⟨-, q₁, run, rfl⟩
      · exact fun _ mem => mem
      · have kept := Routine.run_keeps (fun _ _ _ _ => ih) run
        cases goal <;> exact kept

/-- Whether it succeeds or not, reading takes no symbol away. -/
theorem read_keeps (limit : Option Nat) (goal : Goal) (p : Parser) :
    p.Keeps (p.read limit goal).2 :=
  attempt_keeps (attempt_eq_read limit goal p)

end Parser

end RubyReader
