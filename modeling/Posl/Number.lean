import Posl.Number.Shortest
import Posl.Term

/-!
# Numbers

What a constant is worth as a number: an integer of 64 bits or a real.
-/

namespace Posl

inductive Number where
  | integer (value : Int)
  | real (value : Real64)
  deriving DecidableEq, Repr

/-- The integers of 64 bits with a sign. -/
def isWord (value : Int) : Bool :=
  -9223372036854775808 ≤ value && value ≤ 9223372036854775807

namespace Number

def integerType : String := "Integer"

def realType : String := "Real"

def readInteger? (text : String) : Option Number :=
  ((Posl.readInteger? text.toList).filter isWord).map .integer

def readReal? (text : String) : Option Number := (Real64.read? text.toList).map .real

/-- The number that a constant writes.  One without a type may be an integer or
a real, the integer first; so a long integer is a real. -/
def ofTerm? : Term → Option Number
  | .const name none => readInteger? name <|> readReal? name
  | .const name (some type) =>
    if type = integerType then readInteger? name
    else if type = realType then readReal? name
    else none
  | .var .. | .anon | .expr .. | .atom .. => none

def toReal : Number → Real64
  | .integer value => .ofInt value
  | .real value => value

/-- Two integers are compared exactly, and as reals if one of them is real. -/
def isEqual : Number → Number → Bool
  | .integer x, .integer y => x == y
  | x, y => x.toReal.isEqual y.toReal

/-- The typed constant that shows a number. -/
def toTerm : Number → Term
  | .integer value => .const (toString value) (some integerType)
  | .real value => .const (.ofList value.text) (some realType)

end Number

end Posl
