/-
# `Anchors` — the tokens that have a node of their own

Most tokens of a program stand for a node, and the rest only hold the nodes
apart.  The anchors of a cursor are the places of those of its upcoming
tokens that do stand for one.  A token may stand for two nodes that follow
each other in the tree, so the places in a tree are the anchors with some of
them repeated (`Stutters`).

    Covers c places c'       what is read from c to c' has its nodes at places
    Extends places c more c' if what was read up to c has its nodes at places,
                             what is read up to c' has its nodes at more
-/
import Mathlib.Data.List.Destutter
import RubyReader.Proofs.Reading.Cursor

namespace RubyReader

/-! ## Repeated neighbours -/

/-- The second list is the first, with each member repeated any number of times. -/
inductive Stutters {α : Type} : List α → List α → Prop
  | nil : Stutters [] []
  | cons (a : α) {once raw : List α} : Stutters once raw → Stutters (a :: once) (a :: raw)
  | again (a : α) {once raw : List α} : Stutters (a :: once) raw → Stutters (a :: once) (a :: raw)

namespace Stutters

variable {α : Type} {once raw more many : List α}

theorem singleton (a : α) : Stutters [a] [a] := .cons a .nil

theorem eq_singleton {a : α} (h : Stutters once [a]) : once = [a] := by
  cases h with
  | cons _ rest =>
      cases rest
      rfl
  | again _ rest => cases rest

theorem append (h : Stutters once raw) (h' : Stutters more many) :
    Stutters (once ++ more) (raw ++ many) := by
  induction h with
  | nil => exact h'
  | cons a _ ih => exact .cons a ih
  | again a _ ih => exact .again a ih

theorem twice {a : α} (h : Stutters once (a :: raw)) : Stutters once (a :: a :: raw) := by
  cases h with
  | cons _ h => exact .again a (.cons a h)
  | again _ h => exact .again a (.again a h)

variable [DecidableEq α]

theorem destutter'_eq (h : Stutters once raw) (a : α) :
    raw.destutter' (· ≠ ·) a = once.destutter' (· ≠ ·) a := by
  induction h generalizing a with
  | nil => rfl
  | cons b _ ih => simp only [List.destutter'_cons, ih]
  | @again b once raw _ ih =>
      have stay : raw.destutter' (· ≠ ·) b = once.destutter' (· ≠ ·) b := by
        rw [ih, List.destutter'_cons_neg _ (by simp)]
      by_cases same : a = b
      · subst same
        rw [List.destutter'_cons_neg _ (by simp), ih]
      · rw [List.destutter'_cons_pos _ same, List.destutter'_cons_pos _ same, stay]

/-- Without equal neighbours, the first list is what is left of the second
when equal neighbours are written once. -/
theorem destutter_eq (h : Stutters once raw) (apart : once.IsChain (· ≠ ·)) :
    raw.destutter (· ≠ ·) = once := by
  suffices same : raw.destutter (· ≠ ·) = once.destutter (· ≠ ·) from
    same.trans (List.destutter_of_isChain _ once apart)
  cases h with
  | nil => rfl
  | cons a h => exact h.destutter'_eq a
  | again a h =>
      rw [List.destutter_cons', List.destutter_cons', h.destutter'_eq,
        List.destutter'_cons_neg _ (by simp)]

end Stutters

/-! ## Anchors -/

/-- Whether the next token, line ends aside, is a closing parenthesis. -/
def closesNext (tokens : List Token) : Bool :=
  (tokens.dropWhile fun token => token.kind = .newline).head?.any fun token =>
    token.kind = .rparen

/-- Whether a token only holds nodes apart, or ends them. -/
def TokenKind.separates : TokenKind → Bool
  | newline | comma | rparen | kwEnd | colon | eof => true
  | _ => false

/-- Whether a token, between the one before it and those behind it, stands for
a node.  Separators stand for none, a name behind a dot belongs to the call at
the dot, and of the opening parentheses only that of an empty group stands for
one. -/
def Token.isAnchor (before : Option Token) (token : Token) (behind : List Token) : Bool :=
  match token.kind with
  | .identifier => !before.any fun token => token.kind = .dot
  | .lparen => (!before.any fun token => token.kind = .identifier) && closesNext behind
  | kind => !kind.separates

/-- The places of the tokens that stand for a node, where `before` is the token
in front of them all. -/
def anchors (before : Option Token) : List Token → List Position
  | [] => []
  | token :: behind =>
    (if token.isAnchor before behind then [token.position] else []) ++ anchors (some token) behind

theorem anchors_sublist (before : Option Token) (tokens : List Token) :
    (anchors before tokens).Sublist (tokens.map Token.position) := by
  induction tokens generalizing before with
  | nil => exact List.Sublist.refl _
  | cons token behind ih =>
      rw [anchors]
      split
      · exact (ih (some token)).cons_cons _
      · exact (ih (some token)).cons _

namespace Cursor

variable {c c' c'' : Cursor}

/-- The places of the upcoming tokens that stand for a node. -/
def anchors (c : Cursor) : List Position := RubyReader.anchors c.previous? c.upcoming

/-- Whether the current token stands for a node. -/
def isAnchor (c : Cursor) : Bool := c.current.isAnchor c.previous? c.after

theorem anchors_of_ne (h : c.current.kind ≠ .eof) :
    c.anchors = (if c.isAnchor then [c.current.position] else []) ++ c.advance.anchors := by
  have behind : c.after = c.advance.upcoming := (List.cons.inj (upcoming_of_ne h)).2
  rw [anchors, upcoming, RubyReader.anchors, anchors, previous_advance h, ← behind]
  rfl

theorem anchors_of_last (h : c.after = []) : c.anchors = [] := by
  have ends : c.current.kind = .eof := kind_of_last (by simp [remaining, h])
  simp [anchors, upcoming, h, RubyReader.anchors, Token.isAnchor, ends, TokenKind.separates]

theorem closesNext_upcoming :
    closesNext c.upcoming = decide (c.skipLines.current.kind = .rparen) := by
  induction c using lines_induction with
  | stop c other => simp [skipLines_of_ne other, closesNext, upcoming, other]
  | step c newline ih =>
      rw [skipLines_of_newline newline, ← ih, upcoming_of_ne (by simp [newline])]
      simp [closesNext, newline]

theorem closesNext_after (h : c.current.kind ≠ .eof) :
    closesNext c.after = decide (c.advance.skipLines.current.kind = .rparen) := by
  rw [(List.cons.inj (upcoming_of_ne h)).2, closesNext_upcoming]

end Cursor

/-! ## What is read, and the places of its nodes -/

/-- The tokens from `c` up to `c'` stand for nodes at `places`. -/
def Covers (c : Cursor) (places : List Position) (c' : Cursor) : Prop :=
  ∃ read, c.anchors = read ++ c'.anchors ∧ Stutters read places

/-- The tokens from `c` up to `c'` turn nodes at `places` into nodes at `more`. -/
def Extends (places : List Position) (c : Cursor) (more : List Position) (c' : Cursor) : Prop :=
  ∃ read, c.anchors = read ++ c'.anchors ∧
    ∀ front, Stutters front places → Stutters (front ++ read) more

namespace Covers

variable {c c' c'' : Cursor} {places more : List Position}

theorem refl (c : Cursor) : Covers c [] c := ⟨[], rfl, .nil⟩

theorem trans (h : Covers c places c') (h' : Covers c' more c'') :
    Covers c (places ++ more) c'' := by
  obtain ⟨read, split, stutters⟩ := h
  obtain ⟨read', split', stutters'⟩ := h'
  exact ⟨read ++ read', by rw [split, split', List.append_assoc], stutters.append stutters'⟩

theorem anchor (h : c.isAnchor = true) (ne : c.current.kind ≠ .eof) :
    Covers c [c.current.position] c.advance :=
  ⟨_, by rw [Cursor.anchors_of_ne ne, if_pos h], .singleton _⟩

theorem pass (h : c.isAnchor = false) (ne : c.current.kind ≠ .eof) : Covers c [] c.advance :=
  ⟨[], by simp [Cursor.anchors_of_ne ne, h], .nil⟩

variable {kind : TokenKind}

/-- A token that stands for a node whatever is around it. -/
theorem standing (h : c.current.kind = kind)
    (alone : kind ≠ .identifier ∧ kind ≠ .lparen ∧ kind.separates = false) :
    Covers c [c.current.position] c.advance := by
  obtain ⟨name, group, apart⟩ := alone
  subst h
  refine anchor ?_ (fun e => by rw [e] at apart; cases apart)
  unfold Cursor.isAnchor Token.isAnchor
  split
  · contradiction
  · contradiction
  · rw [apart]
    rfl

theorem separator (h : c.current.kind = kind) (separates : kind.separates = true)
    (ne : kind ≠ .eof) : Covers c [] c.advance := by
  subst h
  refine pass ?_ ne
  unfold Cursor.isAnchor Token.isAnchor
  split
  · rename_i e
    rw [e] at separates
    cases separates
  · rename_i e
    rw [e] at separates
    cases separates
  · rw [separates]
    rfl

theorem skipLines (c : Cursor) : Covers c [] c.skipLines :=
  Cursor.skipLines_keeps (motive := fun d => Covers c [] d) (refl c) fun _ newline covered =>
    covered.trans (separator newline rfl (by decide))

theorem extend (h : Covers c places c') (h' : Extends places c' more c'') :
    Covers c more c'' := by
  obtain ⟨read, split, stutters⟩ := h
  obtain ⟨read', split', longer⟩ := h'
  exact ⟨read ++ read', by rw [split, split', List.append_assoc], longer read stutters⟩

/-- A token that stands for a node, and for the first of what is made of it. -/
theorem extend_again {position : Position} (h : Covers c [position] c')
    (h' : Extends [position] c' more c'') : Covers c (position :: more) c'' := by
  obtain ⟨read, split, stutters⟩ := h
  obtain ⟨read', split', longer⟩ := h'
  obtain rfl := stutters.eq_singleton
  exact ⟨position :: read', by rw [split, split']; rfl,
    .again position (longer [position] (.singleton position))⟩

/-- What follows what was read. -/
theorem behind (h : Covers c more c') (places : List Position) :
    Extends places c (places ++ more) c' := by
  obtain ⟨read, split, stutters⟩ := h
  exact ⟨read, split, fun front h => h.append stutters⟩

theorem twice {position : Position} (h : Covers c (position :: more) c') :
    Covers c (position :: position :: more) c' := by
  obtain ⟨read, split, stutters⟩ := h
  exact ⟨read, split, stutters.twice⟩

end Covers

namespace Extends

variable {c c' c'' : Cursor} {places more most : List Position}

theorem refl : Extends places c places c := ⟨[], rfl, fun _ h => by rwa [List.append_nil]⟩

theorem twice {position : Position} (h : Extends [position, position] c more c') :
    Extends [position] c more c' := by
  obtain ⟨read, split, longer⟩ := h
  exact ⟨read, split, fun front h => longer front h.twice⟩

theorem trans (h : Extends places c more c') (h' : Extends more c' most c'') :
    Extends places c most c'' := by
  obtain ⟨read, split, longer⟩ := h
  obtain ⟨read', split', longer'⟩ := h'
  refine ⟨read ++ read', by rw [split, split', List.append_assoc], fun front h => ?_⟩
  rw [← List.append_assoc]
  exact longer' _ (longer front h)

end Extends

end RubyReader
