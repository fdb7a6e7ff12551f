import Posl.Builtin
import Posl.Builtin.Answer

/-!
# The standard built-ins

Arithmetic, comparison and text:

* `add(?Z, 1, 2)`, `subtract(?Z, 1, 2)` and `multiply(?Z, 1, 2)`
* `greaterThan(2, 1)` and `lessThan(1, 2)`
* `stringConcatenate(?Z, a, b, c)` and `stringLength(?N, abc)`

A call with an operand that is unbound or of the wrong kind, or with too few or
too many operands, fails.
-/

namespace Posl

inductive ArithmeticOperation where
  | add
  | subtract
  | multiply
  deriving DecidableEq, Repr

namespace ArithmeticOperation

def onIntegers : ArithmeticOperation → Int → Int → Int
  | .add => (· + ·)
  | .subtract => (· - ·)
  | .multiply => (· * ·)

def onReals? : ArithmeticOperation → Real64 → Real64 → Option Real64
  | .add => Real64.add?
  | .subtract => Real64.sub?
  | .multiply => Real64.mul?

/-- Integers have an integer result, or none if it needs more than 64 bits.  A
real operand makes the result real. -/
def result? (operation : ArithmeticOperation) : Number → Number → Option Number
  | .integer x, .integer y =>
    let value := operation.onIntegers x y
    if isWord value then some (.integer value) else none
  | x, y => (operation.onReals? x.toReal y.toReal).map .real

def compute? (operation : ArithmeticOperation) : List Term → Option Term
  | [x, y] => do return (← operation.result? (← Number.ofTerm? x) (← Number.ofTerm? y)).toTerm
  | _ => none

end ArithmeticOperation

/-- Numbers are compared as reals. -/
def comparesAs (relation : Real64 → Real64 → Bool) : List Term → Bool
  | [x, y] =>
    match Number.ofTerm? x, Number.ofTerm? y with
    | some x, some y => relation x.toReal y.toReal
    | _, _ => false
  | _ => false

def constantText? : Term → Option String
  | .const name _ => some name
  | _ => none

/-- The texts of one constant or more, joined. -/
def concatenation? (parts : List Term) : Option Term := do
  if parts.isEmpty then
    none
  return .const (String.join (← parts.mapM constantText?)) (some "String")

/-- The number of characters of a constant's text. -/
def textLength? : List Term → Option Term
  | [text] => do return .const (toString (← constantText? text).length) (some Number.integerType)
  | _ => none

inductive StandardBuiltin where
  | add
  | subtract
  | multiply
  | greaterThan
  | lessThan
  | stringConcatenate
  | stringLength
  deriving DecidableEq, Repr

namespace StandardBuiltin

def all : List StandardBuiltin :=
  [.add, .subtract, .multiply, .greaterThan, .lessThan, .stringConcatenate, .stringLength]

def name : StandardBuiltin → String
  | .add => "add"
  | .subtract => "subtract"
  | .multiply => "multiply"
  | .greaterThan => "greaterThan"
  | .lessThan => "lessThan"
  | .stringConcatenate => "stringConcatenate"
  | .stringLength => "stringLength"

def ofName? (name : String) : Option StandardBuiltin := all.find? (·.name == name)

def answer? (builtin : StandardBuiltin) : Term → Option Clause :=
  match builtin with
  | .add => Builtin.computing builtin.name (ArithmeticOperation.compute? .add)
  | .subtract => Builtin.computing builtin.name (ArithmeticOperation.compute? .subtract)
  | .multiply => Builtin.computing builtin.name (ArithmeticOperation.compute? .multiply)
  | .greaterThan => Builtin.testing builtin.name (comparesAs fun x y => y.isLess x)
  | .lessThan => Builtin.testing builtin.name (comparesAs fun x y => x.isLess y)
  | .stringConcatenate => Builtin.computing builtin.name concatenation?
  | .stringLength => Builtin.computing builtin.name textLength?

end StandardBuiltin

namespace Builtin

/-- A built-in for a predicate, which takes its code from the table. -/
def make (table : SymbolTable) (name : String) (answer? : Term → Option Clause) :
    Builtin × SymbolTable :=
  let (symbol, table) := table.intern name
  ({ name, symbol, answer? }, table)

def standard (table : SymbolTable) (builtin : StandardBuiltin) : Builtin × SymbolTable :=
  make table builtin.name builtin.answer?

end Builtin

end Posl
