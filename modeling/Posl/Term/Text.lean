import Posl.Term
import Posl.Lexeme

/-!
# Terms as text

The text of a term under a variable table.  Marked text shows variables as
`?X` and the anonymous variable as `?`; bare text shows them as `X` and `_`.
-/

namespace Posl

/-- The name of a variable.  An index outside the table shows as an underscore
and the index. -/
def variableName (names : List String) (index : Nat) : List Char :=
  match names[index]? with
  | some name => name.toList
  | none => '_' :: (toString index).toList

namespace Term

/-- Items separated by a comma and a space. -/
def commaSeparated (items : List (List Char)) : List Char := [',', ' '].intercalate items

def typeSuffix : Option String → List Char
  | none => []
  | some type => ':' :: type.toList

mutual

/-- The characters of a term's text.  An anonymous object identifier is not
shown. -/
def chars (names : List String) (marked : Bool) : Term → List Char
  | .var index type => (if marked then ['?'] else []) ++ variableName names index ++ typeSuffix type
  | .anon => [if marked then '?' else '_']
  | .const name type => Lexeme.constant name.toList ++ typeSuffix type
  | .expr functor args =>
    functor.toList ++ '(' :: commaSeparated (charsOfEach names marked args) ++ [')']
  | .atom predicate [] => predicate.toList ++ ['(', ')']
  | .atom predicate (.anon :: args) =>
    predicate.toList ++ '(' :: commaSeparated (charsOfEach names marked args) ++ [')']
  | .atom predicate (oid :: args) =>
    predicate.toList ++ '(' :: chars names marked oid ++
      '^' :: commaSeparated (charsOfEach names marked args) ++ [')']

def charsOfEach (names : List String) (marked : Bool) : List Term → List (List Char)
  | [] => []
  | term :: terms => chars names marked term :: charsOfEach names marked terms

end

@[simp] theorem charsOfEach_eq_map (names : List String) (marked : Bool) (terms : List Term) :
    charsOfEach names marked terms = terms.map (chars names marked) := by
  induction terms with
  | nil => rfl
  | cons term terms ih => simp [charsOfEach, ih]

/-- The text of a term, with `?` in front of its variables. -/
def marked (names : List String) (term : Term) : String := .ofList (term.chars names true)

/-- The text of a term, without marks. -/
def bare (names : List String) (term : Term) : String := .ofList (term.chars names false)

/-- A variable whose index lies outside the table has no name to go by, and is
anonymous. -/
def operand (names : List String) : Term → Operand
  | .anon => .anonymous
  | .var index _ =>
    match names[index]? with
    | some name => .variable name
    | none => .anonymous
  | term => .literal (term.bare names)

end Term

end Posl
