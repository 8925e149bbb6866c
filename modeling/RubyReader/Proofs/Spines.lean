/-
# `Spines` — the limit on nesting bounds the tree to the right of its spines

The limit counts expressions that are open, and not the edges of the tree.  An expression adds
at most two turns to those inside it: one to an argument, a branch or a statement of its own,
and one more where a signed number continues it, since its operand is not opened as an
expression.  What stands left is never opened inside what follows it, so receivers and
conditions are not counted.

    room                turns less than        of
    r, opened or not    2 * r                  expressions, statements, arguments
    r, inside           2 * r + 1              continuations of a signed number
    r, inside           2 * r + 2              leading forms and other continuations

So 512 is a bound for programs (`program_turns`), and there is none to the left
(`program_sends`).
-/
import Mathlib
import RubyReader.Proofs.Expressions
import RubyReader.Proofs.Reading.Heeds
import RubyReader.Proofs.Reading.Program
import RubyReader.Proofs.Tree.Paths

namespace RubyReader

open Node (TurnsLess)

/-- How many more expressions may be opened. -/
def Parser.room (limit : Nat) (p : Parser) : Nat := limit - p.depth

theorem Parser.room_congr {limit : Nat} {p q : Parser} (same : q.depth = p.depth) :
    q.room limit = p.room limit :=
  congrArg (limit - ·) same

theorem Parser.room_opened {limit : Nat} {p : Parser} (open' : p.isFull (some limit) = false) :
    p.room limit = p.opened.room limit + 1 := by
  have below : p.depth < limit := by simpa [isFull] using open'
  rw [room, room, depth_opened]
  omega

theorem Token.precedence_of_signedNumber {token : Token} {min : Precedence}
    (follows : token.kind.following? = some .signedNumber) (tighter : min < token.precedence) :
    min < .sum := by
  have number := TokenKind.isNumber_of_following follows
  have above := Nat.lt_of_le_of_lt (Nat.zero_le _) tighter
  have signed := Token.signed_of_precedence number above
  have sum : token.precedence = .sum := by
    unfold precedence
    cases kind : token.kind <;> rw [kind] at number <;> first | exact if_pos signed | cases number
  rwa [sum] at tighter

/-- How often the trees that are read for a goal turn at most. -/
def Goal.TurnsLess (limit : Nat) : (goal : Goal) → Parser → goal.Result → Prop
  | .expression _, p, node => node.TurnsLess (2 * p.room limit)
  | .leading _, p, node => node.TurnsLess (2 * p.room limit + 2)
  | .following form left, p, node => ∀ most, 2 * p.room limit + 1 ≤ most →
    (form = .signedNumber → 2 * p.room limit + 2 ≤ most) → left.TurnsLess most →
      node.TurnsLess most
  | .continuation left min, p, node => ∀ most, 2 * p.room limit + 1 ≤ most →
    (min < .sum → 2 * p.room limit + 2 ≤ most) → left.TurnsLess most → node.TurnsLess most
  | .statements _, p, nodes | .bareArguments, p, nodes | .arguments, p, nodes =>
    ∀ node ∈ nodes, node.TurnsLess (2 * p.room limit)
  | .method, p, (params, body) => (∀ param ∈ params, param.TurnsLess 1) ∧
    ∀ node ∈ body, node.TurnsLess (2 * p.room limit)
  | .parameter, _, node => node.TurnsLess 1
  | .parameters, _, nodes | .bareParameters, _, nodes => ∀ node ∈ nodes, node.TurnsLess 1

/-- What is read turns no more often than the room for expressions allows. -/
theorem Reads.turnsLess {limit : Nat} {goal : Goal} {p q : Parser} {a : goal.Result}
    (h : Reads (some limit) goal p a q) : goal.TurnsLess limit p a := by
  induction h with
  | trueLiteral | falseLiteral | nilLiteral | number | symbol | string | name | emptyGroup =>
      exact .of_leaf (Nat.succ_pos _) rfl
  | selfCall =>
      exact .call (.of_leaf (Nat.succ_pos _) rfl) (List.forall_mem_nil _) (Nat.succ_pos _)
  | selfCallWith _ _ _ _ _ args =>
      exact .call (.of_leaf (Nat.succ_pos _) rfl) args (Nat.lt_succ_of_lt (Nat.lt_succ_self _))
  | group _ _ _ _ node => exact TurnsLess.mono node (Nat.le_add_right _ _)
  | definition _ _ _ method =>
      obtain ⟨params, body⟩ := method
      refine .definition (fun param mem => (params param mem).mono (Nat.le_add_left _ _))
        (fun node mem => (body node mem).mono (Nat.le_succ _)) (Nat.lt_succ_self _)
  | assignment _ _ value =>
      intro most enough _ _
      exact .assignment value enough
  | emptyCall =>
      intro most enough _ left
      exact .call (.of_leaf left.pos rfl) (List.forall_mem_nil _) left.pos
  | call _ _ _ _ args =>
      intro most enough _ left
      exact .call (.of_leaf left.pos rfl) args enough
  | emptyCallAgain =>
      intro most enough _ left
      exact left
  | callAgain _ _ _ _ args =>
      intro most enough _ left
      exact .call left.at_receiver args enough
  | operator _ _ right =>
      intro most enough _ left
      exact .call left (List.forall_mem_singleton.mpr right) enough
  | signedNumber _ _ _ right =>
      intro most _ enough left
      -- the operand goes on behind a product at least, so it holds no signed number of its own
      have operand := right _ (Nat.le_refl _) (fun below => absurd below (Nat.lt_irrefl _))
        (.of_leaf (Nat.succ_pos _) rfl)
      exact .call left (List.forall_mem_singleton.mpr operand) (enough rfl)
  | send =>
      intro most enough _ left
      exact .call left (List.forall_mem_nil _) left.pos
  | sendWith _ _ _ _ args =>
      intro most enough _ left
      exact .call left args enough
  | @ternary p p₁ q left ifTrue ifFalse _ first _ _ whenTrue whenFalse =>
      intro most enough _ left
      have same : p₁.skipLines.advance.room limit = p.room limit := Parser.room_congr first.depth_eq
      rw [Goal.TurnsLess, same] at whenFalse
      exact .conditional left whenTrue whenFalse enough
  | @expression min form p p₁ q left node room _ first _ leading rest =>
      have same : p₁.room limit = p.opened.room limit := Parser.room_congr first.depth_eq
      rw [Goal.TurnsLess, Parser.room_opened room]
      exact rest _ (by omega) (fun _ => by omega) leading
  | @longer min form p p₁ q left longer node tighter follows first _ following rest =>
      have same : p₁.room limit = p.room limit := Parser.room_congr first.depth_eq
      intro most enough sum left
      refine rest most (same ▸ enough) (fun below => same ▸ sum below)
        (following most enough (fun signed => sum ?_) left)
      subst signed
      exact Token.precedence_of_signedNumber follows tighter
  | complete => exact fun _ _ _ left => left
  | noStatement => exact List.forall_mem_nil _
  | @statement terminator p p₁ q node nodes _ _ first _ _ statement rest =>
      have same : p₁.skipLines.room limit = p.room limit := Parser.room_congr first.depth_eq
      rw [Goal.TurnsLess, same] at rest
      exact List.forall_mem_cons.mpr ⟨statement, rest⟩
  | lastBareArgument _ _ arg => exact List.forall_mem_singleton.mpr arg
  | @bareArgument p p₁ q arg args first _ _ argument rest =>
      have same : p₁.advance.room limit = p.room limit := Parser.room_congr first.depth_eq
      rw [Goal.TurnsLess, same] at rest
      exact List.forall_mem_cons.mpr ⟨argument, rest⟩
  | lastArgument _ _ arg => exact List.forall_mem_singleton.mpr arg
  | @argument p p₁ q arg args first _ _ argument rest =>
      have same : p₁.skipLines.advance.room limit = p.room limit := Parser.room_congr first.depth_eq
      rw [Goal.TurnsLess, same] at rest
      exact List.forall_mem_cons.mpr ⟨argument, rest⟩
  | methodAlone _ _ _ body | methodNone _ _ _ _ _ body => exact ⟨List.forall_mem_nil _, body⟩
  | @methodList p p₁ q params body _ _ list _ _ _ params' body' =>
      have same : p₁.skipLines.room limit = p.room limit := Parser.room_congr list.depth_eq
      rw [Goal.TurnsLess, same] at body'
      exact ⟨params', body'⟩
  | @methodBare p p₁ q params body _ _ list _ _ _ params' body' =>
      have same : p₁.skipLines.room limit = p.room limit := Parser.room_congr list.depth_eq
      rw [Goal.TurnsLess, same] at body'
      exact ⟨params', body'⟩
  | parameter => exact .of_leaf Nat.one_pos rfl
  | lastParameter _ _ param | lastBareParameter _ _ param =>
      exact List.forall_mem_singleton.mpr param
  | furtherParameter _ _ _ param params | bareParameter _ _ _ param params =>
      exact List.forall_mem_cons.mpr ⟨param, params⟩

namespace Parser

variable {tokens : List Token} {scope symbols : Names} {node below : Node} {q : Parser}
  {path : List Edge}

/-- At most 512 edges of a path from the root of a program down go anywhere but to the receiver
of a call or the condition of a conditional; whatever is longer goes on left there. -/
theorem program_turns (accepted : (ofTokens tokens scope symbols).program = (.ok node, q))
    (way : node.Path path below) :
    path.countP (fun edge => !edge.isLeft) ≤ 512 ∧
      path.length ≤ 512 + path.countP Edge.isLeft := by
  obtain ⟨nodes, rfl, reads⟩ := program_eq_ok_iff.mp accepted
  have block : (Node.block nodes (ofTokens tokens scope symbols).token.position).TurnsLess 513 :=
    .block reads.turnsLess (Nat.lt_succ_self (2 * nestingLimit))
  have bound : path.countP (fun edge => !edge.isLeft) ≤ 512 :=
    Nat.le_of_lt_succ (block path below way)
  refine ⟨bound, ?_⟩
  have all := List.length_eq_countP_add_countP Edge.isLeft (l := path)
  simp only [Bool.not_eq_true, Bool.decide_eq_false] at all
  omega

/-- The way to the second number of a conditional, which is an operand in the arguments of
another one. -/
theorem program_turns_of_operands :
    let text := "(nil -1.f(nil -2)) ? 3 : 4"
    let path := [Edge.statement, .condition, .argument, .argument, .argument]
    ∃ node q, (ofTokens (lex text).tokens .empty .empty).program = (.ok node, q) ∧
      node.Path path (.literal (.int 2) ⟨1, 15⟩) ∧ path.countP (fun edge => !edge.isLeft) ≤ 512 ∧
      path.length ≤ 512 + path.countP Edge.isLeft := by
  intro text path
  let number : Node := .literal (.int 2) ⟨1, 15⟩
  let inner : Node := .call (.nilLiteral ⟨1, 11⟩) ⟨"-"⟩ [number] ⟨1, 15⟩
  let operand : Node := .call (.literal (.int 1) ⟨1, 6⟩) ⟨"f"⟩ [inner] ⟨1, 8⟩
  let outer : Node := .call (.nilLiteral ⟨1, 2⟩) ⟨"-"⟩ [operand] ⟨1, 6⟩
  let node : Node := .block [.conditional outer (.literal (.int 3) ⟨1, 22⟩)
    (.literal (.int 4) ⟨1, 26⟩) ⟨1, 20⟩] ⟨1, 1⟩
  have accepted : (ofTokens (lex text).tokens .empty .empty).program.1 = .ok node := by cbv
  have way : node.Path path number :=
    .down List.mem_cons_self <| .down List.mem_cons_self <|
    .down (List.mem_cons_of_mem _ List.mem_cons_self) <|
    .down (List.mem_cons_of_mem _ List.mem_cons_self) <|
    .down (List.mem_cons_of_mem _ List.mem_cons_self) .here
  exact ⟨node, _, Prod.ext accepted rfl, way, program_turns (Prod.ext accepted rfl) way⟩

end Parser

/-! ## To the left -/

/-- Messages that are sent one after another, from `true` on. -/
def Phrase.sends (dot : Terminal .dot) (message : Terminal .identifier) :
    Nat → Phrase (.level .send) false
  | 0 => .tighter (by decide) (.trueLiteral ⟨.new .kwTrue "true" .start, rfl⟩)
  | count + 1 => .send (sends dot message count) dot message

namespace Phrase

variable (dot : Terminal .dot) (message : Terminal .identifier) (scope : Names)

theorem nesting_sends (count : Nat) : (sends dot message count).nesting = 0 := by
  induction count with
  | zero => rfl
  | succ count ih => exact ih

theorem path_sends (count : Nat) :
    ∃ below, ((sends dot message count).tree scope).1.Path (.replicate count .receiver) below := by
  induction count with
  | zero => exact ⟨_, .here⟩
  | succ count ih =>
      obtain ⟨below, way⟩ := ih
      exact ⟨below, .down List.mem_cons_self way⟩

end Phrase

/-- To the left there is no limit: messages that are sent one after another are read, however
many they are. -/
theorem Parser.program_sends (dot : Terminal .dot) (message : Terminal .identifier)
    (scope symbols : Names) (count : Nat) :
    ∃ node q below, (ofTokens (Phrase.sends dot message count).tokens scope symbols).program
        = (.ok node, q) ∧ node.Path (.statement :: .replicate count .receiver) below := by
  let e : Phrase (.level .expression) false := .tighter (by decide) <| .tighter (by decide) <|
    .tighter (by decide) <| .tighter (by decide) <| .tighter (by decide) <|
    .tighter (by decide) <| Phrase.sends dot message count
  obtain ⟨last, ends, stands⟩ := e.stands none scope symbols
  have room : Room (some nestingLimit) (5 * (e.nesting + 1)) := by
    rw [show e.nesting = 0 from Phrase.nesting_sends dot message count]
    rintro _ ⟨⟩
    decide
  obtain ⟨q, reads, -⟩ := e.reads_statements scope room ends stands
  obtain ⟨below, way⟩ := Phrase.path_sends dot message scope count
  have tokens : e.parser none scope symbols
      = ofTokens (Phrase.sends dot message count).tokens scope symbols :=
    congrArg (ofTokens · scope symbols) (List.append_nil _)
  rw [tokens] at reads
  exact ⟨_, q, below, program_eq_ok_iff.mpr ⟨_, rfl, reads⟩, .down List.mem_cons_self way⟩

end RubyReader
