/-
# `Value` — literals and tagged lists

The leaves of a syntax tree are values, and so is its serialization: a list
whose head is a symbol, the tag, and whose other elements are values.
-/
import RubyReader.Names
import RubyReader.Number.Binary64

namespace RubyReader

/-- A literal, a symbol, or a tagged list. -/
inductive Value where
  | nil
  | bool (b : Bool)
  | int (n : Int64)
  | float (x : Binary64)
  | str (text : String)
  | sym (symbol : Symbol)
  | sexp (tag : Symbol) (children : List Value)

namespace Value

/-- A list that holds nothing behind its tag. -/
def tagged (tag : String) (children : List Value) : Value := sexp ⟨tag⟩ children

/-! ## Views

What a value holds, if it is of the kind asked for. -/

def str? : Value → Option String
  | str text => some text
  | _ => none

def int? : Value → Option Int64
  | int n => some n
  | _ => none

def sym? : Value → Option Symbol
  | sym symbol => some symbol
  | _ => none

/-- The tag and the children of a tagged list. -/
def sexp? : Value → Option (Symbol × List Value)
  | sexp tag children => some (tag, children)
  | _ => none

def isNil : Value → Bool
  | nil => true
  | _ => false

/-! ## Equality -/

mutual

/-- Equality of values: numbers are compared as numbers, so that a value
with a float that is no number differs from itself. -/
def same : Value → Value → Bool
  | nil, nil => true
  | bool a, bool b => a = b
  | int a, int b => a = b
  | float a, float b => a.sameNumber b
  | str a, str b => a = b
  | sym a, sym b => a = b
  | sexp tag children, sexp tag' children' => tag = tag' && allSame children children'
  | _, _ => false

def allSame : List Value → List Value → Bool
  | [], [] => true
  | a :: as, b :: bs => same a b && allSame as bs
  | _, _ => false

end

/-! ## Symbols -/

mutual

/-- The names of all symbols of a value, tags included, from left to right. -/
def symbolNames : Value → List String
  | sym symbol => [symbol.name]
  | sexp tag children => tag.name :: allSymbolNames children
  | _ => []

def allSymbolNames : List Value → List String
  | [] => []
  | value :: rest => symbolNames value ++ allSymbolNames rest

end

end Value
end RubyReader
