/-
# `Style` — text on a terminal

How a span of text is set in a style is the terminal's affair: everything that writes spans
is written over a way to set them (`Styling`).  The command is run on a terminal that reads
control sequences, where a span is switched on in front of its text and off behind it:

    ESC[31m ESC[1m text ESC[0m
-/
namespace RubyReader

/-- The styles in which text is set. -/
inductive Style where
  | bold
  | red
  | green
  | yellow
  | magenta
  | cyan
deriving DecidableEq

/-- A way to set a span of text in styles, if colours are on. -/
class Styling where
  span (styles : List Style) (colours : Bool) (text : String) : String

namespace Style

/-- The parameter of the control sequence that switches a style on. -/
def parameter : Style → String
  | bold => "1"
  | red => "31"
  | green => "32"
  | yellow => "33"
  | magenta => "35"
  | cyan => "36"

end Style

namespace Styling

def control (parameter : String) : String := "\x1b[" ++ parameter ++ "m"

/-- Spans between control sequences, in the order of their styles. -/
instance sequences : Styling where
  span styles colours text :=
    if colours && !styles.isEmpty then
      String.join (styles.map fun style => control style.parameter) ++ text ++ control "0"
    else text

end Styling
end RubyReader
