/-
# `Places` — every token is where its node is

Walked in source order, a tree visits the tokens it was read from: each token
that stands for a node, once, in the order of the text (`places_parse`).  So
reading loses nothing, writes nothing twice and leaves everything in its order.

The induction on a derivation carries, beside the places, where an expression
may begin (`Fresh`): not at a name behind a dot, which belongs to the call, and
not at a parenthesis behind a name, which opens a list.
-/
import Mathlib
import RubyReader.Session
import RubyReader.Proofs.Reading.Anchors
import RubyReader.Proofs.Reading.Program

namespace RubyReader

/-! ## The places in a tree -/

namespace Node

mutual

/-- The places of the nodes of a tree in source order: the receiver of a call
before the call and its arguments behind it, the target of an assignment before
the assignment.  A block has no token of its own. -/
def places : Node → List Position
  | assignment target value position => target.token.position :: position :: places value
  | block nodes _ => allPlaces nodes
  | call receiver _ args position => places receiver ++ position :: allPlaces args
  | definition name params body position =>
    position :: name.token.position :: (allPlaces params ++ allPlaces body)
  | conditional condition ifTrue ifFalse position =>
    places condition ++ position :: (places ifTrue ++ places ifFalse)
  | falseLiteral position | identifier _ position | implicitSelf position | literal _ position
  | nilLiteral position | string _ position | symbol _ position | trueLiteral position => [position]

def allPlaces : List Node → List Position
  | [] => []
  | node :: rest => places node ++ allPlaces rest

end

/-- A name stands where its token does. -/
def Named : Node → Prop
  | .identifier name position => name.token.position = position
  | _ => True

end Node

/-! ## Where an expression begins -/

/-- No name behind a dot, and no parenthesis behind a name. -/
structure Cursor.Fresh (c : Cursor) : Prop where
  name : c.current.kind = .identifier → (c.previous?.any fun token => token.kind = .dot) = false
  group : c.current.kind = .lparen →
    (c.previous?.any fun token => token.kind = .identifier) = false

namespace Cursor

variable {c : Cursor}

theorem Fresh.of_previous {token : Token} (h : c.previous? = some token)
    (noDot : token.kind ≠ .dot) (noName : token.kind ≠ .identifier) : c.Fresh :=
  ⟨fun _ => by simp [h, noDot], fun _ => by simp [h, noName]⟩

theorem Fresh.of_none (h : c.previous? = none) : c.Fresh :=
  ⟨fun _ => by simp [h], fun _ => by simp [h]⟩

/-- Behind a token that is neither a dot nor a name. -/
theorem Fresh.advance {kind : TokenKind} (h : c.current.kind = kind)
    (other : kind ≠ .eof ∧ kind ≠ .dot ∧ kind ≠ .identifier) : c.advance.Fresh := by
  subst h
  exact .of_previous (Cursor.previous_advance other.1) other.2.1 other.2.2

theorem Fresh.of_operator {name : String} (h : c.current.kind.operator? = some name) :
    c.advance.Fresh := by
  refine .advance rfl ⟨?_, ?_, ?_⟩
  all_goals
    intro e
    rw [e] at h
    cases h

theorem Fresh.skipLines (h : c.Fresh) : c.skipLines.Fresh := by
  rcases c.previous_skipLines with same | ⟨token, before, newline⟩
  · rwa [same]
  · exact .of_previous before (by simp [newline]) (by simp [newline])

theorem Fresh.of_endsStatement (h : c.current.kind.EndsStatement) : c.Fresh := by
  constructor
  · intro name
    simp [TokenKind.EndsStatement, name] at h
  · intro group
    simp [TokenKind.EndsStatement, group] at h

/-- Whether the token in front is a name. -/
def BehindName (c : Cursor) : Prop := ∃ name, c.previous? = some name ∧ name.kind = .identifier

theorem BehindName.advance (h : c.current.kind = .identifier) : c.advance.BehindName :=
  ⟨c.current, Cursor.previous_advance (by simp [h]), h⟩

/-- Directly behind a name anything begins but a parenthesis. -/
theorem BehindName.fresh (h : c.BehindName) (noParen : c.current.kind ≠ .lparen) : c.Fresh := by
  obtain ⟨name, before, named⟩ := h
  exact ⟨fun _ => by simp [before, named], fun group => absurd group noParen⟩

theorem Fresh.of_beginsBareArgument (name : c.current.kind = .identifier)
    (h : c.advance.current.beginsBareArgument = true) : c.advance.Fresh := by
  refine (BehindName.advance name).fresh fun paren => ?_
  simp [Token.beginsBareArgument, paren] at h

end Cursor

/-! ## What one form covers

A token that stands for a node adds its place, and the others add nothing: neither the
parentheses around something nor the name behind a dot. -/

namespace Covers

variable {c c' : Cursor} {places : List Position}

theorem name (h : c.current.kind = .identifier) (fresh : c.Fresh) :
    Covers c [c.current.position] c.advance :=
  anchor (by simp [Cursor.isAnchor, Token.isAnchor, h, fresh.name h]) (by simp [h])

theorem emptyGroup (opening : c.current.kind = .lparen) (fresh : c.Fresh)
    (closing : c.advance.skipLines.current.kind = .rparen) :
    Covers c [c.current.position] c.advance.skipLines.advance := by
  have ne : c.current.kind ≠ .eof := by simp [opening]
  have first : c.isAnchor = true := by
    simp [Cursor.isAnchor, Token.isAnchor, opening, fresh.group opening,
      Cursor.closesNext_after ne, closing]
  exact ((anchor first ne).trans (skipLines _)).trans (separator closing rfl (by decide))

theorem openGroup (opening : c.current.kind = .lparen)
    (more : c.advance.skipLines.current.kind ≠ .rparen) : Covers c [] c.advance.skipLines := by
  have ne : c.current.kind ≠ .eof := by simp [opening]
  have none : c.isAnchor = false := by
    simp [Cursor.isAnchor, Token.isAnchor, opening, Cursor.closesNext_after ne, more]
  exact (pass none ne).trans (skipLines _)

theorem openList (opening : c.current.kind = .lparen)
    (behind : c.BehindName) : Covers c [] c.advance.skipLines := by
  obtain ⟨name, before, named⟩ := behind
  have none : c.isAnchor = false := by
    simp [Cursor.isAnchor, Token.isAnchor, opening, before, named]
  exact (pass none (by simp [opening])).trans (skipLines _)

theorem close (h : Covers c places c') (closing : c'.skipLines.current.kind = .rparen) :
    Covers c places c'.skipLines.advance := by
  have ended := (h.trans (skipLines c')).trans (separator closing rfl (by decide))
  simpa using ended

theorem send (dot : c.current.kind = .dot) (name : c.advance.current.kind = .identifier) :
    Covers c [c.current.position] c.advance.advance := by
  have before := Cursor.previous_advance (c := c) (by simp [dot])
  have none : c.advance.isAnchor = false := by
    simp [Cursor.isAnchor, Token.isAnchor, name, before, dot]
  exact (standing dot (by decide)).trans (pass none (by simp [name]))

end Covers

theorem NameEnds.behindName {left : Node} {p : Parser} (ends : NameEnds left p)
    (list : (∃ name position, left = .identifier name position) ∨
      ∃ receiver message position, left = .call receiver message [] position)
    (h : p.afterParen = false) : p.cursor.BehindName := by
  rcases list with ⟨name, position, rfl⟩ | ⟨receiver, message, position, rfl⟩
  · rcases ends with after | ⟨before, named, _⟩
    · rw [h] at after
      cases after
    · exact ⟨name.token, before, named⟩
  · rcases ends with after | behind
    · rw [h] at after
      cases after
    · exact behind

theorem Covers.operator {c : Cursor} {name : String}
    (h : c.current.kind.operator? = some name) : Covers c [c.current.position] c.advance := by
  refine .standing rfl ⟨?_, ?_, ?_⟩
  · rintro e
    rw [e] at h
    cases h
  · rintro e
    rw [e] at h
    cases h
  · revert h
    cases c.current.kind <;> simp [TokenKind.operator?, TokenKind.separates]

theorem Covers.numeral {c : Cursor} {text : String} {value : Value}
    (h : c.current.numeral? text = some value) : Covers c [c.current.position] c.advance := by
  rcases Token.kind_of_numeral h with integer | float
  · exact .standing integer (by decide)
  · exact .standing float (by decide)

/-! ## What every phrase covers -/

/-- The nodes of a phrase stand at the tokens that it was read from. -/
def Goal.Placed : (goal : Goal) → Parser → goal.Result → Parser → Prop
  | .expression _, p, node, q | .leading _, p, node, q =>
    p.cursor.Fresh → node.Named ∧ Covers p.cursor node.places q.cursor
  | .following _ left, p, node, q | .continuation left _, p, node, q =>
    NameEnds left p → left.Named →
      node.Named ∧ Extends left.places p.cursor node.places q.cursor
  | .statements _, p, nodes, q | .bareArguments, p, nodes, q | .arguments, p, nodes, q
  | .parameters, p, nodes, q | .bareParameters, p, nodes, q =>
    p.cursor.Fresh → Covers p.cursor (Node.allPlaces nodes) q.cursor
  | .parameter, p, node, q => p.cursor.Fresh → Covers p.cursor node.places q.cursor
  | .method, p, (params, body), q =>
    p.cursor.BehindName → Covers p.cursor (Node.allPlaces params ++ Node.allPlaces body) q.cursor

open Node (places allPlaces) in
theorem Reads.placed {limit : Option Nat} {goal : Goal} {p q : Parser} {a : goal.Result}
    (h : Reads limit goal p a q) : goal.Placed p a q := by
  induction h with
  | trueLiteral kind | falseLiteral kind | nilLiteral kind | symbol kind | string kind =>
      exact fun _ => ⟨trivial, .standing kind (by decide)⟩
  | number written => exact fun _ => ⟨trivial, .numeral written⟩
  | name named _ => exact fun fresh => ⟨rfl, .name named fresh⟩
  | selfCall named _ _ _ => exact fun fresh => ⟨trivial, (Covers.name named fresh).twice⟩
  | selfCallWith named _ _ begins _ list =>
      intro fresh
      have args := list (.of_beginsBareArgument named begins)
      exact ⟨trivial, ((Covers.name named fresh).trans args).twice⟩
  | emptyGroup opening closing => exact fun fresh => ⟨trivial, .emptyGroup opening fresh closing⟩
  | group opening more _ closing inner =>
      intro _
      obtain ⟨named, covers⟩ := inner ((Cursor.Fresh.advance opening (by decide)).skipLines)
      exact ⟨named, ((Covers.openGroup opening more).trans covers).close closing⟩
  | @definition p q params body opening named _ method =>
      intro _
      have fresh : p.advance.cursor.Fresh := .advance opening (by decide)
      have rest := method (.advance (c := p.cursor.advance) named)
      exact ⟨trivial, ((Covers.standing opening (by decide)).trans (.name named fresh)).trans rest⟩
  | @assignment p q target position value assign _ inner =>
      intro _ named
      obtain rfl : target.token.position = position := named
      obtain ⟨_, value⟩ := inner (.advance assign (by decide))
      have behind := ((Covers.standing assign (by decide)).trans value).behind
        [target.token.position]
      exact ⟨trivial, behind⟩
  | @emptyCall p callee position after opening closing =>
      intro ends _
      have list := ends.behindName (.inl ⟨_, _, rfl⟩) after
      have empty := (Covers.openList opening list).trans (.separator closing rfl (by decide))
      exact ⟨trivial, (empty.behind [position, position]).twice⟩
  | @call p q callee position args after opening _ _ args =>
      intro ends _
      have list := ends.behindName (.inl ⟨_, _, rfl⟩) after
      have args := args (Cursor.Fresh.advance opening (by decide)).skipLines
      have behind := ((Covers.openList opening list).trans args).behind [position, position]
      exact ⟨trivial, behind.twice⟩
  | @emptyCallAgain p receiver message position after opening closing =>
      intro ends _
      have list := ends.behindName (.inr ⟨_, _, _, rfl⟩) after
      have empty := (Covers.openList opening list).trans (.separator closing rfl (by decide))
      have behind := empty.behind (receiver.places ++ [position])
      rw [List.append_nil, List.append_nil] at behind
      exact ⟨trivial, behind⟩
  | @callAgain p q receiver message position args after opening _ _ list =>
      intro ends _
      have behind := ends.behindName (.inr ⟨_, _, _, rfl⟩) after
      have args := list (Cursor.Fresh.advance opening (by decide)).skipLines
      have behind := ((Covers.openList opening behind).trans args).behind
        (receiver.places ++ [position])
      rw [List.append_assoc] at behind
      exact ⟨trivial, behind⟩
  | @operator p q left right name known _ inner =>
      intro _ _
      obtain ⟨_, right⟩ := inner (.of_operator known)
      have behind := ((Covers.operator known).trans right).behind left.places
      refine ⟨trivial, ?_⟩
      simpa [places, allPlaces, Parser.token] using behind
  | @signedNumber p q left right value _ written _ inner =>
      intro _ _
      obtain ⟨_, more⟩ := inner trivial trivial
      have behind := ((Covers.numeral written).extend_again more).behind left.places
      refine ⟨trivial, ?_⟩
      simpa [places, allPlaces, Parser.token] using behind
  | send dot named _ => exact fun _ _ => ⟨trivial, (Covers.send dot named).behind _⟩
  | @sendWith p q left args dot named begins _ list =>
      intro _ _
      have args := list (.of_beginsBareArgument (c := p.cursor.advance) named begins)
      exact ⟨trivial, ((Covers.send dot named).trans args).behind _⟩
  | @ternary p p₁ q left yes no sign _ colon _ true false =>
      intro _ _
      obtain ⟨_, ifTrue⟩ := true (.advance sign (by decide))
      obtain ⟨_, ifFalse⟩ := false (.advance colon (by decide))
      have branches := ((ifTrue.trans (.skipLines _)).trans
        (.separator colon rfl (by decide))).trans ifFalse
      have behind := ((Covers.standing sign (by decide)).trans branches).behind left.places
      refine ⟨trivial, ?_⟩
      simpa [places, Parser.token] using behind
  | expression _ _ first _ leading rest =>
      intro fresh
      obtain ⟨named, left⟩ := leading fresh.skipLines
      obtain ⟨named, longer⟩ := rest first.nameEnds_leading named
      exact ⟨named, ((Covers.skipLines _).trans left).extend longer⟩
  | longer _ _ first _ following rest =>
      intro ends named
      obtain ⟨named, more⟩ := following ends named
      obtain ⟨named, most⟩ := rest first.nameEnds_following named
      exact ⟨named, more.trans most⟩
  | complete _ => exact fun _ named => ⟨named, .refl⟩
  | noStatement _ => exact fun _ => .skipLines _
  | statement _ _ _ ends _ node nodes =>
      intro fresh
      obtain ⟨_, covers⟩ := node fresh.skipLines
      have rest := nodes (Cursor.Fresh.of_endsStatement ends).skipLines
      have first := ((Covers.skipLines _).trans covers).trans (.skipLines _)
      rw [List.append_nil] at first
      exact first.trans rest
  | lastBareArgument _ _ arg =>
      intro fresh
      simpa [allPlaces] using (arg fresh).2
  | bareArgument _ comma _ arg args =>
      intro fresh
      have separator := Covers.separator comma rfl (by decide)
      have rest := args (.advance comma (by decide))
      exact (arg fresh).2.trans (separator.trans rest)
  | lastArgument _ closing arg =>
      intro fresh
      simpa [allPlaces] using (arg fresh).2.close closing
  | argument _ comma _ arg args =>
      intro fresh
      have separator := (Covers.skipLines _).trans (.separator comma rfl (by decide))
      have rest := args (.advance comma (by decide))
      exact (arg fresh).2.trans (separator.trans rest)
  | methodAlone ends _ closing body =>
      intro _
      have body := body (Cursor.Fresh.of_endsStatement ends).skipLines
      have inside := (Covers.skipLines _).trans body
      simpa [allPlaces] using inside.trans (.separator closing rfl (by decide))
  | @methodNone p q body opening empty ends _ closing inside =>
      intro named
      have parens := (Covers.openList opening named).trans
        (.separator empty rfl (by decide))
      have body := inside (Cursor.Fresh.of_endsStatement ends).skipLines
      have whole := (parens.trans (.skipLines _)).trans body
      simpa [allPlaces] using whole.trans (.separator closing rfl (by decide))
  | methodList opening _ _ ends _ closing list inside =>
      intro named
      have params := list (Cursor.Fresh.advance opening (by decide)).skipLines
      have body := inside (Cursor.Fresh.of_endsStatement ends).skipLines
      have open_params := (Covers.openList opening named).trans params
      have whole := (open_params.trans (.skipLines _)).trans body
      simpa using whole.trans (.separator closing rfl (by decide))
  | methodBare noParen _ _ ends _ closing list inside =>
      intro named
      have params := list (named.fresh noParen)
      have body := inside (Cursor.Fresh.of_endsStatement ends).skipLines
      have whole := (params.trans (.skipLines _)).trans body
      simpa using whole.trans (.separator closing rfl (by decide))
  | parameter named _ => exact fun fresh => .name named fresh
  | lastParameter _ closing param =>
      intro fresh
      simpa [allPlaces] using (param fresh).close closing
  | furtherParameter _ comma _ param params =>
      intro fresh
      have separator := (Covers.skipLines _).trans (.separator comma rfl (by decide))
      have rest := params (Cursor.Fresh.advance comma (by decide)).skipLines
      exact (param fresh).trans ((separator.trans (.skipLines _)).trans rest)
  | lastBareParameter _ _ param =>
      intro fresh
      simpa [allPlaces] using param fresh
  | bareParameter _ comma _ param params =>
      intro fresh
      have separator := Covers.separator comma rfl (by decide)
      have rest := params (.advance comma (by decide))
      exact (param fresh).trans (separator.trans rest)

/-! ## What a program covers -/

theorem isChain_anchors (text : String) : (anchors none (lex text).tokens).IsChain (· ≠ ·) := by
  have sorted := (Lexer.positions_lex text).sublist (anchors_sublist none _)
  exact (sorted.imp Position.Before.ne).isChain

/-- The places of a tree in source order, equal neighbours written once, are
those of the tokens of the text that stand for a node, in their order. -/
theorem places_parse {session after : Session} {text : String} {node : Node}
    (accepted : session.parse text = (.ok node, after)) :
    node.places.destutter (· ≠ ·) = anchors none (lex text).tokens := by
  obtain ⟨_, q, program, _⟩ := Session.parse_eq_ok_iff.mp accepted
  obtain ⟨nodes, rfl, reads⟩ := Parser.program_eq_ok_iff.mp program
  obtain ⟨read, split, stutters⟩ := reads.placed (Cursor.Fresh.of_none Cursor.previous_ofTokens)
  have start : (Cursor.ofTokens (lex text).tokens).anchors = anchors none (lex text).tokens := by
    rw [Cursor.anchors, upcoming_lex, Cursor.previous_ofTokens]
  have noneLeft : q.cursor.anchors = [] := Cursor.anchors_of_last reads.after_eq_nil
  have whole : anchors none (lex text).tokens = read := by
    rw [← start, ← List.append_nil read, ← noneLeft]
    exact split
  rw [whole]
  exact stutters.destutter_eq (whole ▸ isChain_anchors text)

/-- A signed number, calls that are written in several ways, and an empty group. -/
theorem places_parse_of_calls :
    ∃ node after,
      Session.new.parse "f.g(x = ()) ? h x -1 : 2" = (.ok node, after) ∧
        node.places.destutter (· ≠ ·) = anchors none (lex "f.g(x = ()) ? h x -1 : 2").tokens := by
  obtain ⟨node, after, accepted⟩ := exists_of_isOk
    (Session.new.parse "f.g(x = ()) ? h x -1 : 2") (by cbv)
  exact ⟨node, after, accepted, places_parse accepted⟩

end RubyReader
