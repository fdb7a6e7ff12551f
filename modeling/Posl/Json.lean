/-!
# JSON values

Values, the fields of objects, and the text of a value without any blank space.
-/

namespace Posl

inductive Json where
  | null
  | bool (value : Bool)
  | integer (value : Int)
  /-- A number with a fraction or an exponent, or a negative zero, given by its
  text. -/
  | decimal (text : String)
  | string (value : String)
  | array (items : List Json)
  /-- Fields in the order written. -/
  | object (fields : List (String × Json))
  deriving Repr, Inhabited

namespace Json

def get? (key : String) : Json → Option Json
  | .object fields => fields.lookup key
  | _ => none

def string? : Json → Option String
  | .string value => some value
  | _ => none

def array? : Json → Option (List Json)
  | .array items => some items
  | _ => none

def bool? : Json → Option Bool
  | .bool value => some value
  | _ => none

/-- The largest index: all 64 bits of a word are set. -/
def maxIndex : Nat := 18446744073709551615

def index? : Json → Option Nat
  | .integer (.ofNat value) => if value ≤ maxIndex then some value else none
  | _ => none

def strings? (json : Json) : Option (List String) := do
  (← json.array?).mapM string?

def ofStrings (values : List String) : Json := .array (values.map .string)

/-- A text, or null for none. -/
def ofString? : Option String → Json
  | none => .null
  | some value => .string value

def hexDigit (value : Nat) : Char := Nat.digitChar value

/-- A character inside a string: quotes, backslashes and control characters are
escaped, all else stands for itself. -/
def escapeChar (c : Char) : List Char :=
  match c with
  | '"' => ['\\', '"']
  | '\\' => ['\\', '\\']
  | '\x08' => ['\\', 'b']
  | '\x0c' => ['\\', 'f']
  | '\n' => ['\\', 'n']
  | '\r' => ['\\', 'r']
  | '\t' => ['\\', 't']
  | c =>
    if c < ' ' then ['\\', 'u', '0', '0', hexDigit (c.toNat / 16), hexDigit (c.toNat % 16)] else [c]

def stringChars (text : String) : List Char := '"' :: text.toList.flatMap escapeChar ++ ['"']

mutual

def chars : Json → List Char
  | .null => "null".toList
  | .bool value => (if value then "true" else "false").toList
  | .integer value => (toString value).toList
  | .decimal text => text.toList
  | .string value => stringChars value
  | .array items => '[' :: [','].intercalate (charsOfItems items) ++ [']']
  | .object fields => '{' :: [','].intercalate (charsOfFields fields) ++ ['}']

def charsOfItems : List Json → List (List Char)
  | [] => []
  | item :: items => chars item :: charsOfItems items

def charsOfFields : List (String × Json) → List (List Char)
  | [] => []
  | (key, value) :: fields => (stringChars key ++ ':' :: chars value) :: charsOfFields fields

end

def text (json : Json) : String := .ofList json.chars

end Json

end Posl
