import Posl.Number.Decimal

/-!
# 64-bit reals

Finite binary floating-point numbers with 53 significant bits and exponents down
to -1074.  Every operation takes the exact result to the nearest of them, of two
nearest ones to that with an even significand, and has no result where that would
be infinite.
-/

namespace Posl

/-- A sign and a magnitude, counted in units of `2 ^ -1074`. -/
structure Real64 where
  negative : Bool
  units : Nat
  deriving DecidableEq, Repr, Inhabited

namespace Real64

/-- The number of units in one. -/
def one : Nat := Nat.pow 2 1074

/-- The least number of units that is too large. -/
def bound : Nat := Nat.pow 2 2098

/-- A quotient to the nearest integer, a tie to the even one. -/
def roundQuotient (numerator denominator : Nat) : Nat :=
  let quotient := numerator / denominator
  let twice := 2 * (numerator % denominator)
  if twice < denominator ∨ (twice = denominator ∧ quotient % 2 = 0) then quotient
  else quotient + 1

/-- The number of units nearest to a quotient that has no more than 53
significant bits. -/
def nearest (numerator denominator : Nat) : Nat :=
  let step := Nat.pow 2 ((numerator / denominator).log2 - 52)
  roundQuotient numerator (denominator * step) * step

/-- The nearest number of units, if it is not too large. -/
def nearest? (numerator denominator : Nat) : Option Nat :=
  let units := nearest numerator denominator
  if units < bound then some units else none

/-- The magnitude as an integer with a sign.  Both zeros are zero. -/
def value (x : Real64) : Int := if x.negative then -(x.units : Int) else x.units

def isLess (x y : Real64) : Bool := x.value < y.value

/-- Equality in value, under which the two zeros are one number. -/
def isEqual (x y : Real64) : Bool := x.value == y.value

/-- The nearest number to an integer of no more than 1023 bits. -/
def ofInt (n : Int) : Real64 := { negative := n < 0, units := nearest (n.natAbs * one) 1 }

def neg (x : Real64) : Real64 := { x with negative := !x.negative }

/-- The sum.  A zero is negative only where both terms are. -/
def add? (x y : Real64) : Option Real64 := do
  let sum := x.value + y.value
  let negative := if sum = 0 then x.negative && y.negative else sum < 0
  return { negative, units := ← nearest? sum.natAbs 1 }

def sub? (x y : Real64) : Option Real64 := x.add? y.neg

def mul? (x y : Real64) : Option Real64 := do
  return { negative := x.negative != y.negative, units := ← nearest? (x.units * y.units) one }

/-- The number of units nearest to `coefficient * 10 ^ exponent`. -/
def nearestDecimal? (coefficient : Nat) : (exponent : Int) → Option Nat
  | .ofNat k => nearest? (coefficient * Nat.pow 10 k * one) 1
  | .negSucc k => nearest? (coefficient * one) (Nat.pow 10 (k + 1))

/-- The nearest number to a decimal one.  Those above `10 ^ 310` are too large
and those below `10 ^ -330` are zero, whatever their digits. -/
def ofDecimal? (decimal : Decimal) : Option Real64 :=
  let size := (Nat.toDigits 10 decimal.coefficient).length + decimal.exponent
  if decimal.coefficient = 0 ∨ size < -330 then
    some { negative := decimal.negative, units := 0 }
  else if 310 < size then
    none
  else do
    return {
      negative := decimal.negative
      units := ← nearestDecimal? decimal.coefficient decimal.exponent }

def read? (text : List Char) : Option Real64 := Decimal.read? text >>= ofDecimal?

end Real64

end Posl
