import Posl.Json
import Posl.Reader
import Posl.Text.Digits

/-!
# Reading JSON

Reads one value from a text.  Of two fields with one name in an object, the
later counts.
-/

namespace Posl.Json

open Reader

def isSpace (c : Char) : Bool := c == ' ' || c == '\t' || c == '\n' || c == '\r'

def blank : Reader Unit := do
  let _ ← takeWhile isSpace

def keyword (word : String) (value : Json) : Reader Json := do
  word.toList.forM fun c => do
    let _ ← char c
  return value

def exponentSign : Reader (List Char) := do
  return (← attempt (satisfy fun c => c == '+' || c == '-')).toList

def number : Reader Json := do
  let sign ← attempt (char '-')
  let whole ← takeWhile1 Char.isDigit
  if whole.length > 1 ∧ whole.head? = some '0' then reject
  let fraction ← attempt do
    let point ← char '.'
    return point :: (← takeWhile1 Char.isDigit)
  let exponent ← attempt do
    let mark ← satisfy fun c => c == 'e' || c == 'E'
    let exponentSign ← exponentSign
    return mark :: exponentSign ++ (← takeWhile1 Char.isDigit)
  let value := digitsValue whole
  match sign, fraction, exponent with
  | none, none, none => return .integer value
  | some _, none, none =>
    if value = 0 then return .decimal "-0" else return .integer (-(value : Int))
  | _, _, _ =>
    return .decimal (.ofList (sign.toList ++ whole ++ fraction.getD [] ++ exponent.getD []))

def hexValue? (c : Char) : Option Nat :=
  if c.isDigit then some (digitValue c)
  else if 'a' ≤ c ∧ c ≤ 'f' then some (c.toNat - 'a'.toNat + 10)
  else if 'A' ≤ c ∧ c ≤ 'F' then some (c.toNat - 'A'.toNat + 10)
  else none

/-- Four hexadecimal digits. -/
def codeUnit : Reader Nat
  | a :: b :: c :: d :: rest =>
    match hexValue? a, hexValue? b, hexValue? c, hexValue? d with
    | some a, some b, some c, some d => .ok (((a * 16 + b) * 16 + c) * 16 + d) rest
    | _, _, _, _ => .mismatch (a :: b :: c :: d :: rest)
  | text => .mismatch text

def isHighSurrogate (unit : Nat) : Bool := 0xD800 ≤ unit && unit < 0xDC00

def isLowSurrogate (unit : Nat) : Bool := 0xDC00 ≤ unit && unit < 0xE000

/-- A character given by code units: one, or a high and a low surrogate. -/
def codePoint : Reader Char := do
  let unit ← codeUnit
  if isHighSurrogate unit then
    let _ ← char '\\'
    let _ ← char 'u'
    let low ← codeUnit
    if isLowSurrogate low then
      return .ofNat (0x10000 + (unit - 0xD800) * 0x400 + (low - 0xDC00))
    else reject
  else if isLowSurrogate unit then reject
  else return .ofNat unit

def stringChar : Reader Char := do
  let c ← satisfy fun c => c != '"' && ' ' ≤ c
  if c != '\\' then
    return c
  match ← satisfy fun _ => true with
  | '"' => return '"'
  | '\\' => return '\\'
  | '/' => return '/'
  | 'b' => return '\x08'
  | 'f' => return '\x0c'
  | 'n' => return '\n'
  | 'r' => return '\r'
  | 't' => return '\t'
  | 'u' => codePoint
  | _ => reject

def stringText : Reader String := do
  let _ ← char '"'
  let text ← many stringChar
  let _ ← char '"'
  return .ofList text

/-- Fields by name, the last of each name, at the place of the first. -/
def setField (fields : List (String × Json)) (field : String × Json) : List (String × Json) :=
  if fields.any (·.1 == field.1) then
    fields.map fun old => if old.1 == field.1 then field else old
  else fields ++ [field]

def arrayOf (value : Reader Json) : Reader Json := do
  let _ ← char '['
  let items ← separated (char ',') value
  blank
  let _ ← char ']'
  return .array items

def objectOf (value : Reader Json) : Reader Json := do
  let _ ← char '{'
  let fields ← separated (char ',') do
    blank
    let key ← stringText
    blank
    let _ ← char ':'
    return (key, ← value)
  blank
  let _ ← char '}'
  return .object (fields.foldl setField [])

/-- A value that is nested less than `depth` levels deep. -/
def valueWithin : (depth : Nat) → Reader Json
  | 0 => reject
  | depth + 1 => do
    blank
    let value ← orElse (keyword "null" .null) <| orElse (keyword "true" (.bool true)) <|
      orElse (keyword "false" (.bool false)) <| orElse number <|
      orElse (do return .string (← stringText)) <|
      orElse (arrayOf (valueWithin depth)) (objectOf (valueWithin depth))
    blank
    return value

/-- The value that a text holds.  It cannot be nested deeper than the text is
long. -/
def read? (text : String) : Option Json :=
  match valueWithin (text.toList.length + 1) text.toList with
  | .ok value [] => some value
  | _ => none

end Posl.Json
