import Posl.Number.Real64

/-!
# The shortest text of a real

The fewest digits that read back as the same number.  Of two such texts of one
length the nearer is taken, and of two equally near ones the larger.
-/

namespace Posl.Real64

/-- The exact value of a magnitude in decimal, as an integer times `10 ^ -1074`. -/
def exactCoefficient (units : Nat) : Nat := units * Nat.pow 5 1074

/-- The coefficients next to a value that keep all but its last `dropped`
digits, the nearer one first. -/
def neighbours (exact dropped : Nat) : List Nat :=
  let unit := Nat.pow 10 dropped
  let below := exact / unit
  if 2 * (exact % unit) < unit then [below, below + 1] else [below + 1, below]

/-- A coefficient without its trailing zeros, which go to the exponent. -/
def stripZeros (coefficient : Nat) (exponent : Int) : (fuel : Nat) → Nat × Int
  | 0 => (coefficient, exponent)
  | fuel + 1 =>
    if coefficient % 10 = 0 then stripZeros (coefficient / 10) (exponent + 1) fuel
    else (coefficient, exponent)

/-- The coefficient of a neighbour with `count` digits that reads back as the
same magnitude, with its exponent. -/
def shortened? (units length count : Nat) : Option (Nat × Int) :=
  let dropped := length - count
  let exponent : Int := dropped - 1074
  (neighbours (exactCoefficient units) dropped).findSome? fun coefficient =>
    if nearestDecimal? coefficient exponent = some units then some (coefficient, exponent)
    else none

/-- The decimal number that a real is shown as.  Seventeen digits are always
enough. -/
def toDecimal (x : Real64) : Decimal :=
  if x.units = 0 then
    { negative := x.negative, coefficient := 0, exponent := 0 }
  else
    let length := (Nat.toDigits 10 (exactCoefficient x.units)).length
    let (coefficient, exponent) :=
      ((List.range 17).findSome? fun i => shortened? x.units length (i + 1)).getD
        (exactCoefficient x.units, -1074)
    let (coefficient, exponent) := stripZeros coefficient exponent length
    { negative := x.negative, coefficient, exponent }

def text (x : Real64) : List Char := x.toDecimal.plain

end Posl.Real64
