import Posl.Text.Digits

/-!
# Decimal numerals

Numbers of the form `coefficient * 10 ^ exponent`, the numerals that write them
and the plain notation, which shows no exponent.
-/

namespace Posl

structure Decimal where
  negative : Bool
  coefficient : Nat
  exponent : Int
  deriving DecidableEq, Repr, Inhabited

/-- A sign, if there is one, and what follows it.  The flag tells of a minus. -/
def splitSign : List Char → Bool × List Char
  | '-' :: rest => (true, rest)
  | '+' :: rest => (false, rest)
  | text => (false, text)

/-- An integer with an optional sign, which is nothing but a sign and digits. -/
def readInteger? (text : List Char) : Option Int :=
  let (negative, digits) := splitSign text
  if !digits.isEmpty && digits.all Char.isDigit then
    some (if negative then -(digitsValue digits : Int) else digitsValue digits)
  else none

namespace Decimal

/-- The exponent after a numeral's digits: none, or a mark and an integer. -/
def readExponent? : List Char → Option Int
  | [] => some 0
  | mark :: text => if mark = 'e' ∨ mark = 'E' then readInteger? text else none

/-- A numeral with an optional sign, an optional point and an optional exponent.
There is a digit before the point or after it. -/
def read? (text : List Char) : Option Decimal := do
  let (negative, unsigned) := splitSign text
  let whole := unsigned.takeWhile Char.isDigit
  let (fraction, rest) :=
    match unsigned.dropWhile Char.isDigit with
    | '.' :: rest => (rest.takeWhile Char.isDigit, rest.dropWhile Char.isDigit)
    | rest => ([], rest)
  if whole.isEmpty && fraction.isEmpty then
    none
  let exponent ← readExponent? rest
  return {
    negative
    coefficient := digitsValue (whole ++ fraction)
    exponent := exponent - fraction.length }

/-- The digits of a number, with as many zeros in front of them as it takes to
have more than `places` digits. -/
def paddedDigits (value places : Nat) : List Char :=
  let digits := Nat.toDigits 10 value
  List.replicate (places + 1 - digits.length) '0' ++ digits

/-- Plain notation: zeros stand in for a positive exponent, and a negative one
sets the point. -/
def plain (decimal : Decimal) : List Char :=
  (if decimal.negative then ['-'] else []) ++
    match decimal.exponent with
    | .ofNat zeros => Nat.toDigits 10 (decimal.coefficient * Nat.pow 10 zeros)
    | .negSucc k =>
      let digits := paddedDigits decimal.coefficient (k + 1)
      digits.take (digits.length - (k + 1)) ++ '.' :: digits.drop (digits.length - (k + 1))

end Decimal

end Posl
