/-!
# Identifiers, numerals and quoted text

Which texts are identifiers and numerals, and how any other text is quoted.
All letters and digits here are ASCII.
-/

namespace Posl.Lexeme

def isIdentifierStart (c : Char) : Bool := c.isAlpha || c == '_'

def isIdentifierRest (c : Char) : Bool := c.isAlphanum || c == '_' || c == '-'

/-- A letter or an underscore, then letters, digits, underscores and hyphens. -/
def isIdentifier : List Char → Bool
  | [] => false
  | c :: rest => isIdentifierStart c && rest.all isIdentifierRest

def isDigits (text : List Char) : Bool := !text.isEmpty && text.all Char.isDigit

/-- Digits, with at most one point and digits on both sides of it. -/
def isUnsignedNumeral (text : List Char) : Bool :=
  match text.dropWhile (· != '.') with
  | [] => isDigits text
  | _ :: fraction => isDigits (text.takeWhile (· != '.')) && isDigits fraction

/-- A numeral may start with a minus sign; there is no other notation. -/
def isNumeral : List Char → Bool
  | '-' :: rest => isUnsignedNumeral rest
  | text => isUnsignedNumeral text

/-- A constant that reads back as itself when it is written bare.  The lone
underscore does not: it is the anonymous variable. -/
def isPlain (text : List Char) : Bool :=
  (isIdentifier text && text != ['_']) || isNumeral text

/-- A quote and a backslash are written after a backslash, all else as it is. -/
def escape : List Char → List Char
  | [] => []
  | c :: rest => if c = '"' ∨ c = '\\' then '\\' :: c :: escape rest else c :: escape rest

def quote (text : List Char) : List Char := '"' :: escape text ++ ['"']

/-- A constant is quoted only where it has to be. -/
def constant (text : List Char) : List Char := if isPlain text then text else quote text

@[simp] theorem escape_append (left right : List Char) :
    escape (left ++ right) = escape left ++ escape right := by
  induction left with
  | nil => rfl
  | cons c rest ih => by_cases h : c = '"' ∨ c = '\\' <;> simp [escape, h, ih]

end Posl.Lexeme
