/-
# `Names` — inserting several names

The names of a list join a set one after the other.  What is then behind the
names that were there before are the new ones among the list, each at its
first place (`toList_insertAll`).
-/
import RubyReader.Names

namespace RubyReader.Names

variable {names : Names} {name : String} {more : List String}

theorem contains_iff : names.contains name = true ↔ name ∈ names := decide_eq_true_iff

theorem contains_eq_false : names.contains name = false ↔ name ∉ names := decide_eq_false_iff_not

theorem ext {names names' : Names} (h : names.toList = names'.toList) : names = names' := by
  obtain ⟨list, nodup⟩ := names
  obtain ⟨list', nodup'⟩ := names'
  subst h
  rfl

/-- A name that is there already adds nothing. -/
theorem insert_of_mem (h : name ∈ names) : names.insert name = names :=
  ext (by rw [toList_insert, if_pos h])

@[simp] theorem insertAll_nil : names.insertAll [] = names := rfl

@[simp] theorem insertAll_cons :
    names.insertAll (name :: more) = (names.insert name).insertAll more := rfl

theorem insertAll_append {others : List String} :
    names.insertAll (more ++ others) = (names.insertAll more).insertAll others :=
  List.foldl_append

/-- The new ones among the names of a list follow those that were there, each
at its first place. -/
theorem toList_insertAll :
    (names.insertAll more).toList
      = names.toList ++ (more.filter fun other => !names.contains other).eraseDups := by
  induction more generalizing names with
  | nil => simp
  | cons name rest ih =>
      rw [insertAll_cons, ih, toList_insert]
      by_cases known : name ∈ names
      · have same : names.insert name = names := insert_of_mem known
        simp [known, same, contains_iff.mpr known]
      · have later : (rest.filter fun other => !(names.insert name).contains other)
            = (rest.filter fun other => !names.contains other).filter fun other =>
                !other == name := by
          rw [List.filter_filter]
          refine List.filter_congr fun other _ => ?_
          by_cases same : other = name
          · simp [same, contains_iff.mpr (mem_insert.mpr (Or.inr rfl))]
          · by_cases mem : other ∈ names
            · simp [contains_iff.mpr mem, contains_iff.mpr (mem_insert.mpr (Or.inl mem))]
            · have absent : other ∉ names.insert name := fun h =>
                (mem_insert.mp h).elim mem same
              simp [same, contains_eq_false.mpr mem, contains_eq_false.mpr absent]
        simp [known, contains_eq_false.mpr known, List.eraseDups_cons, later]

end RubyReader.Names
