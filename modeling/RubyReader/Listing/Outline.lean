/-
# `Outline` — nested records as text

An outline is what a structure listing shows of a piece of data: atoms,
records with named fields, tuples behind a name, and lists.  It is written
on one line,

    Name { field: value, field: value }     Name(value, value)     [value, value]

or as a block, with each field or element on a line of its own, four blanks
deeper and a comma behind it.  An empty list is `[]` in both.
-/
namespace RubyReader

/-- The shape of a piece of data. -/
inductive Outline where
  | atom (text : String)
  | record (name : String) (fields : List (String × Outline))
  | tuple (name : String) (items : List Outline)
  | list (items : List Outline)

namespace Outline

/-- The brace that opens the fields of a record. -/
def openBrace : String := "\x7b"

/-- The brace that closes the fields of a record. -/
def closeBrace : String := "\x7d"

/-! ## On one line -/

mutual

/-- An outline on one line. -/
def inLine : Outline → String
  | atom text => text
  | record name fields =>
    name ++ " " ++ openBrace ++ " " ++ ", ".intercalate (fieldsInLine fields) ++ " " ++ closeBrace
  | tuple name items => name ++ "(" ++ ", ".intercalate (itemsInLine items) ++ ")"
  | list items => "[" ++ ", ".intercalate (itemsInLine items) ++ "]"

def itemsInLine : List Outline → List String
  | [] => []
  | item :: rest => inLine item :: itemsInLine rest

def fieldsInLine : List (String × Outline) → List String
  | [] => []
  | (name, value) :: rest => (name ++ ": " ++ inLine value) :: fieldsInLine rest

end

/-! ## As a block -/

/-- The start of a line at a depth. -/
def indent (depth : Nat) : String := String.ofList (List.replicate (4 * depth) ' ')

/-- Lines between an opening and a closing mark, each deeper than the
marks and with a comma at its end; nothing is put between them if there are none. -/
def enclose (depth : Nat) (opening closing : String) : List String → String
  | [] => opening ++ closing
  | lines =>
    opening ++ "\n" ++ String.join (lines.map fun line => indent (depth + 1) ++ line ++ ",\n")
      ++ indent depth ++ closing

mutual

/-- An outline as a block whose first line stands at a depth. -/
def inBlock (depth : Nat) : Outline → String
  | atom text => text
  | record name fields =>
    enclose depth (name ++ " " ++ openBrace) closeBrace (fieldsInBlock depth fields)
  | tuple name items => enclose depth (name ++ "(") ")" (itemsInBlock depth items)
  | list items => enclose depth "[" "]" (itemsInBlock depth items)

def itemsInBlock (depth : Nat) : List Outline → List String
  | [] => []
  | item :: rest => inBlock (depth + 1) item :: itemsInBlock depth rest

def fieldsInBlock (depth : Nat) : List (String × Outline) → List String
  | [] => []
  | (name, value) :: rest => (name ++ ": " ++ inBlock (depth + 1) value) :: fieldsInBlock depth rest

end

/-- An outline as a block at the left margin. -/
def block (outline : Outline) : String := inBlock 0 outline

/-! ## Outlines of plain data -/

def nat (n : Nat) : Outline := atom (toString n)

def bool (b : Bool) : Outline := atom (if b then "true" else "false")

end Outline
end RubyReader
