/-
# `Names` — sets of names in order of arrival

One type serves the two tables of the reader: the local variables of a
scope, which are shown in the order of their declaration, and the symbols
met so far, of which only the number is shown.  No name occurs twice.
-/
namespace RubyReader

/-- A set of names that remembers the order of their arrival. -/
structure Names where
  toList : List String
  nodup : toList.Nodup
deriving DecidableEq

namespace Names

instance : Membership String Names := ⟨fun names name => name ∈ names.toList⟩

instance (name : String) (names : Names) : Decidable (name ∈ names) :=
  inferInstanceAs (Decidable (name ∈ names.toList))

def empty : Names := ⟨[], List.nodup_nil⟩

/-- Whether a name has arrived; names are compared exactly. -/
def contains (names : Names) (name : String) : Bool := decide (name ∈ names)

def size (names : Names) : Nat := names.toList.length

/-- A new name goes to the end; a present one moves nothing. -/
def insert (names : Names) (name : String) : Names :=
  if h : name ∈ names.toList then names
  else ⟨names.toList ++ [name], by
    refine List.nodup_append.mpr ⟨names.nodup, by simp, fun a ha b hb => ?_⟩
    rintro rfl
    exact h (List.mem_singleton.mp hb ▸ ha)⟩

/-- The names of a list join one after the other. -/
def insertAll (names : Names) (more : List String) : Names := more.foldl insert names

/-- The distinct names of a list, each at its first place. -/
def ofList (list : List String) : Names := empty.insertAll list

/-- The names in the order of their code points. -/
def sorted (names : Names) : List String := names.toList.mergeSort fun a b => decide (a ≤ b)

@[simp] theorem toList_empty : empty.toList = [] := rfl

theorem mem_iff {names : Names} {name : String} : name ∈ names ↔ name ∈ names.toList := Iff.rfl

theorem toList_insert (names : Names) (name : String) :
    (names.insert name).toList
      = if name ∈ names then names.toList else names.toList ++ [name] := by
  unfold insert
  by_cases h : name ∈ names.toList <;> simp [h, mem_iff]

/-- Insertion adds its name and nothing else. -/
@[simp] theorem mem_insert {names : Names} {name other : String} :
    other ∈ names.insert name ↔ other ∈ names ∨ other = name := by
  simp only [mem_iff, toList_insert]
  split
  · rename_i h
    exact ⟨Or.inl, fun hh => hh.elim id fun e => e ▸ h⟩
  · simp

end Names

/-- An interned name: symbols are equal when their names are. -/
structure Symbol where
  name : String
deriving DecidableEq

/-- A symbol is written behind a colon. -/
def Symbol.text (symbol : Symbol) : String := ":" ++ symbol.name

end RubyReader
