/-
# `Ranges` — sets of characters as ranges of code points

Ranges are closed, ascending and apart, so a search may stop at the first
range that begins behind its character.
-/
namespace RubyReader.Text

/-- Whether one of the ranges holds the code point. -/
def inRanges (code : Nat) : List (Nat × Nat) → Bool
  | [] => false
  | (lo, hi) :: rest => lo ≤ code && (code ≤ hi || inRanges code rest)

/-- Ranges that ascend and do not touch. -/
def apart : List (Nat × Nat) → Bool
  | [] => true
  | [r] => r.1 ≤ r.2
  | r :: s :: rest => r.1 ≤ r.2 && r.2 + 1 < s.1 && apart (s :: rest)

theorem tail_of_apart {r : Nat × Nat} {ranges : List (Nat × Nat)}
    (h : apart (r :: ranges) = true) : apart ranges = true ∧ ∀ s ∈ ranges, r.1 ≤ s.1 := by
  induction ranges generalizing r with
  | nil => exact ⟨rfl, nofun⟩
  | cons s rest ih =>
      simp only [apart, Bool.and_eq_true, decide_eq_true_eq] at h
      obtain ⟨⟨ordered, gap⟩, behind⟩ := h
      refine ⟨behind, fun t mem => ?_⟩
      rcases List.mem_cons.mp mem with rfl | mem
      · omega
      · have := (ih behind).2 t mem
        omega

/-- In ranges that are apart nothing is missed by the search. -/
theorem inRanges_iff {code : Nat} {ranges : List (Nat × Nat)} (h : apart ranges = true) :
    inRanges code ranges = true ↔ ∃ r ∈ ranges, r.1 ≤ code ∧ code ≤ r.2 := by
  induction ranges with
  | nil => simp [inRanges]
  | cons r rest ih =>
      obtain ⟨behind, least⟩ := tail_of_apart h
      simp only [inRanges, Bool.and_eq_true, Bool.or_eq_true, decide_eq_true_eq, ih behind,
        List.mem_cons, exists_eq_or_imp]
      constructor
      · rintro ⟨low, high | later⟩
        · exact .inl ⟨low, high⟩
        · exact .inr later
      · rintro (⟨low, high⟩ | ⟨s, mem, low, high⟩)
        · exact ⟨low, .inl high⟩
        · exact ⟨Nat.le_trans (least s mem) low, .inr ⟨s, mem, low, high⟩⟩

end RubyReader.Text
