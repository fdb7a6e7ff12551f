/-!
# Coloured text

Terminal escapes around a piece of text.
-/

namespace Posl

inductive Color where
  | red
  | green
  | yellow
  deriving DecidableEq, Repr

structure Style where
  color : Color
  bold : Bool := false

namespace Color

def code : Color → String
  | .red => "31"
  | .green => "32"
  | .yellow => "33"

end Color

/-- Whether a setting of the environment is there and is not zero. -/
def isSwitchedOn (setting : Option String) : Bool := setting.any (· != "0")

/-- Whether colours are on: always if they are forced, never if they are
forbidden, and otherwise on a terminal unless they are switched off. -/
def colorsEnabled (force forbid switch : Option String) (isTerminal : Bool) : Bool :=
  isSwitchedOn force || (forbid.isNone && isTerminal && switch.all (· != "0"))

namespace Style

def start (style : Style) : List Char :=
  '\x1b' :: '[' :: (if style.bold then ['1', ';'] else []) ++ style.color.code.toList ++ ['m']

def reset : List Char := ['\x1b', '[', '0', 'm']

/-- The text with the style taken up again after each reset in it. -/
def resume (style : Style) : List Char → List Char
  | '\x1b' :: '[' :: '0' :: 'm' :: rest => reset ++ style.start ++ resume style rest
  | c :: rest => c :: resume style rest
  | [] => []

/-- The text in the style if colours are on, and as it is otherwise. -/
def paint (style : Style) (colored : Bool) (text : String) : String :=
  if colored then .ofList (style.start ++ style.resume text.toList ++ reset) else text

end Style

end Posl
