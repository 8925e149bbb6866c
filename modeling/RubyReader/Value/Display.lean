/-
# `Display` — values as text, plain and coloured

    nil  true  -1  2.5  "text"  :name  s(:tag, child, child)

The text of a value holds no line break.  In colour each leaf and each tag
is a span of its own: tags bold, symbols cyan, strings green, numbers
yellow, nil and the truth values magenta; the marks between them are plain.
-/
import RubyReader.Number.Layout
import RubyReader.Text.Quoted
import RubyReader.Text.Style
import RubyReader.Value.Basic

namespace RubyReader

/-! ## Plain -/

namespace Value

mutual

def text : Value → String
  | nil => "nil"
  | bool true => "true"
  | bool false => "false"
  | int n => toString n.toInt
  | float x => FloatLayout.value.write x
  | str s => Text.quoteValue s
  | sym symbol => symbol.text
  | sexp tag children => "s(" ++ tag.text ++ childrenText children ++ ")"

/-- The children of a list, a comma and a blank in front of each. -/
def childrenText : List Value → String
  | [] => ""
  | child :: rest => ", " ++ text child ++ childrenText rest

end

end Value

/-! ## Coloured -/

namespace Value

variable [Styling]

mutual

/-- The text of a value with every leaf and every tag in its style. -/
def pretty (colours : Bool) : Value → String
  | sexp tag children =>
    "s(" ++ Styling.span [.bold] colours tag.text ++ childrenPretty colours children ++ ")"
  | sym symbol => Styling.span [.cyan] colours symbol.text
  | str s => Styling.span [.green] colours (text (str s))
  | int n => Styling.span [.yellow] colours (text (int n))
  | float x => Styling.span [.yellow] colours (text (float x))
  | nil => Styling.span [.magenta] colours (text nil)
  | bool b => Styling.span [.magenta] colours (text (bool b))

def childrenPretty (colours : Bool) : List Value → String
  | [] => ""
  | child :: rest => ", " ++ pretty colours child ++ childrenPretty colours rest

end

end Value
end RubyReader
