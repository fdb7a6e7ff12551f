import Mathlib.Data.List.TakeWhile
import Posl.Proofs.Arithmetic

/-!
# Integer literals of any length

Digits without a type are an integer if 64 bits suffice for it.  Longer ones are the real
next to it, if there is one, and then the result of an operation is a real as well.  With
the type of integers they are no number at all.
-/

namespace Posl

/-! ## The real next to an integer -/

namespace Real64

/-- The nearest real to an integer, if the integer is not too large for one. -/
def ofInt? (n : Int) : Option Real64 :=
  (nearest? (n.natAbs * one) 1).map fun units => { negative := n < 0, units }

/-- The least power of two that is too large. -/
theorem nearest_two_pow : nearest (2 ^ 1024 * one) 1 = bound := by
  have hexact : nearest (2 ^ 1024 * one) 1 = 2 ^ 1024 * one :=
    nearest_mul_one_of_dvd (k := 1024) (by rw [Nat.log2_two_pow]; omega) (Nat.dvd_refl _)
  have hbound : 2 ^ 1024 * one = bound := by decide +kernel
  rw [hexact, hbound]

/-- A number of more than `k` digits is at least `10 ^ k`, as its first digit is not
zero. -/
theorem pow_le_of_lt_length {m k : Nat} (hk : 0 < k) (hm : k < (Nat.toDigits 10 m).length) :
    10 ^ k ≤ m := by
  rw [← Nat.not_le, Nat.length_toDigits_le_iff (by decide) hk, Nat.not_lt] at hm
  exact hm

/-- Integers of more than 310 digits are too large. -/
theorem nearest?_of_lt_length {m : Nat} (hm : 310 < (Nat.toDigits 10 m).length) :
    nearest? (m * one) 1 = none := by
  have hpow : 2 ^ 1024 ≤ 10 ^ 310 := by decide +kernel
  have hlong := Nat.le_trans hpow (pow_le_of_lt_length (by decide) hm)
  have hbound : bound ≤ nearest (m * one) 1 :=
    nearest_two_pow ▸ nearest_mono (Nat.mul_le_mul_right one hlong)
  rw [nearest?, if_neg (Nat.not_lt.mpr hbound)]

/-- Integers of 64 bits are not too large. -/
theorem ofInt?_of_isWord {n : Int} (hn : isWord n) : ofInt? n = some (ofInt n) := by
  have hword := isWord_iff.mp hn
  have hle : n.natAbs ≤ 2 ^ 63 := by omega
  have hexact : nearest (2 ^ 63 * one) 1 = 2 ^ 63 * one :=
    nearest_mul_one_of_dvd (k := 63) (by decide) (Nat.dvd_refl _)
  have hbound : 2 ^ 63 * one < bound := by decide +kernel
  have hlt : nearest (n.natAbs * one) 1 < bound :=
    calc nearest (n.natAbs * one) 1 ≤ nearest (2 ^ 63 * one) 1 :=
          nearest_mono (Nat.mul_le_mul_right one hle)
      _ = 2 ^ 63 * one := hexact
      _ < bound := hbound
  rw [ofInt?, nearest?, if_pos hlt]
  rfl

theorem nearestDecimal?_zero (coefficient : Nat) :
    nearestDecimal? coefficient 0 = nearest? (coefficient * one) 1 := by
  change nearest? (coefficient * 1 * one) 1 = _
  rw [Nat.mul_one]

/-- A whole number in decimal is taken to the nearest real. -/
theorem ofDecimal?_of_whole {coefficient : Nat} (hne : coefficient ≠ 0) (negative : Bool) :
    ofDecimal? { negative, coefficient, exponent := 0 } =
      (nearest? (coefficient * one) 1).map fun units => { negative, units } := by
  have hsize : ¬ (((Nat.toDigits 10 coefficient).length : Int) + 0 < -330) := by omega
  simp only [ofDecimal?, hne, hsize, false_or, if_false, nearestDecimal?_zero]
  split
  · next hlong => rw [nearest?_of_lt_length (by omega), Option.map_none]
  · rw [Option.map_eq_bind]
    rfl

end Real64

/-! ## Reading a literal -/

theorem Decimal.read?_of_splitSign {text digits : List Char} {negative : Bool}
    (hsign : splitSign text = (negative, digits)) (hdigits : Lexeme.isDigits digits) :
    Decimal.read? text =
      some { negative, coefficient := digitsValue digits, exponent := 0 } := by
  obtain ⟨hne, hall⟩ : digits ≠ [] ∧ ∀ c ∈ digits, c.isDigit := by
    simpa [Lexeme.isDigits] using hdigits
  have htake : digits.takeWhile Char.isDigit = digits := List.takeWhile_eq_self_iff.mpr hall
  have hdrop : digits.dropWhile Char.isDigit = [] := List.dropWhile_eq_nil_iff.mpr hall
  simp [Decimal.read?, hsign, htake, hdrop, hne, Decimal.readExponent?]

/-- An integer is a sign, which may be left out, and digits. -/
theorem exists_splitSign_of_readInteger? {text : List Char} {value : Int}
    (hread : readInteger? text = some value) :
    ∃ negative digits, splitSign text = (negative, digits) ∧ Lexeme.isDigits digits ∧
      value = if negative then -(digitsValue digits : Int) else digitsValue digits := by
  obtain ⟨hdigits, hvalue⟩ := Option.ite_none_right_eq_some.mp hread
  exact ⟨_, _, rfl, hdigits, (Option.some.inj hvalue).symm⟩

/-- An integer in decimal is read as the nearest real.  A zero is left out, as it keeps its
sign. -/
theorem Real64.read?_of_readInteger? {text : List Char} {value : Int}
    (hread : Posl.readInteger? text = some value) (hne : value ≠ 0) :
    Real64.read? text = Real64.ofInt? value := by
  obtain ⟨negative, digits, hsign, hdigits, rfl⟩ := exists_splitSign_of_readInteger? hread
  have hpos : digitsValue digits ≠ 0 := by
    intro hzero
    simp [hzero] at hne
  rw [Real64.read?, Decimal.read?_of_splitSign hsign hdigits]
  refine (Real64.ofDecimal?_of_whole hpos negative).trans ?_
  cases negative with
  | false => simp [Real64.ofInt?, Int.not_lt.mpr (Int.natCast_nonneg _)]
  | true => simp [Real64.ofInt?, Nat.pos_of_ne_zero hpos]

namespace Number

section Long

variable {name : String} {value : Int} (hread : Posl.readInteger? name.toList = some value)
  (hlong : ¬ isWord value)

include hread hlong

theorem readInteger?_of_long : readInteger? name = none := by
  simp [readInteger?, hread, hlong]

theorem ofTerm?_integer_of_long : ofTerm? (.const name (some integerType)) = none := by
  rw [ofTerm?, if_pos rfl, readInteger?_of_long hread hlong]

theorem ofTerm?_of_long :
    ofTerm? (.const name none) = (Real64.ofInt? value).map .real := by
  have hne : value ≠ 0 := by
    rintro rfl
    exact hlong (by decide)
  rw [ofTerm?, readInteger?_of_long hread hlong, readReal?, Real64.read?_of_readInteger? hread hne]
  cases (Real64.ofInt? value).map real <;> rfl

end Long

/-- Decimal digits, with a minus sign before them or not, and the integer that they
write. -/
inductive IsLiteral : String → Int → Prop
  | natural {name : String} {value : Int} : Lexeme.isDigits name.toList →
      value = digitsValue name.toList → IsLiteral name value
  | negated {name : String} {digits : List Char} {value : Int} : name.toList = '-' :: digits →
      Lexeme.isDigits digits → value = -(digitsValue digits : Int) → IsLiteral name value

namespace IsLiteral

variable {name : String} {value : Int}

theorem exists_splitSign (hliteral : IsLiteral name value) :
    ∃ negative digits, splitSign name.toList = (negative, digits) ∧ Lexeme.isDigits digits ∧
      value = if negative then -(digitsValue digits : Int) else digitsValue digits := by
  cases hliteral with
  | natural hdigits hvalue => exact ⟨false, _, splitSign_of_isDigits hdigits, hdigits, hvalue⟩
  | negated hname hdigits hvalue => exact ⟨true, _, by rw [hname]; rfl, hdigits, hvalue⟩

theorem readInteger?_toList (hliteral : IsLiteral name value) :
    Posl.readInteger? name.toList = some value := by
  obtain ⟨negative, digits, hsign, hdigits, rfl⟩ := hliteral.exists_splitSign
  exact readInteger?_of_splitSign hsign hdigits

theorem writesInteger (hliteral : IsLiteral name value) (hword : isWord value)
    {type : Option String} (htype : type = none ∨ type = some integerType) :
    WritesInteger (.const name type) value :=
  .intro htype hliteral.readInteger?_toList hword

/-- Whether a literal is an integer or a real, its number is next to what it writes. -/
theorem map_toReal (hliteral : IsLiteral name value) :
    (ofTerm? (.const name none)).map toReal = Real64.ofInt? value := by
  by_cases hword : isWord value
  · rw [(hliteral.writesInteger hword (.inl rfl)).ofTerm?, Real64.ofInt?_of_isWord hword]
    rfl
  · rw [ofTerm?_of_long hliteral.readInteger?_toList hword, Option.map_map]
    exact Option.map_id'

/-- Only literals that fit 64 bits are integers. -/
theorem isWord_of_integer (hliteral : IsLiteral name value) {read : Int}
    (hread : ofTerm? (.const name none) = some (.integer read)) : isWord value := by
  by_contra hlong
  rw [ofTerm?_of_long hliteral.readInteger?_toList hlong] at hread
  obtain ⟨real, -, hreal⟩ := Option.map_eq_some_iff.mp hread
  cases hreal

end IsLiteral

end Number

open Number (IsLiteral)

/-! ## Operations on literals -/

namespace ArithmeticOperation

/-- The operation on the reals next to two integers. -/
def onNearestReals? (operation : ArithmeticOperation) (a b : Int) : Option Real64 := do
  operation.onReals? (← Real64.ofInt? a) (← Real64.ofInt? b)

/-- Numbers that are not both integers are taken as reals. -/
theorem result?_of_real (operation : ArithmeticOperation) {left right : Number}
    (hreal : ∀ a b, left = .integer a → right ≠ .integer b) :
    operation.result? left right = (operation.onReals? left.toReal right.toReal).map .real := by
  cases left with
  | integer a =>
      cases right with
      | integer b => exact absurd rfl (hreal a b rfl)
      | real y => rfl
  | real x => cases right <;> rfl

variable {left right : String} {a b : Int}

/-- One long literal is enough for both operands to be taken as reals. -/
theorem compute?_of_long (operation : ArithmeticOperation) (hleft : IsLiteral left a)
    (hright : IsLiteral right b) (hlong : ¬ (isWord a ∧ isWord b)) :
    operation.compute? [.const left none, .const right none] =
      (operation.onNearestReals? a b).map fun value => (Number.real value).toTerm := by
  rw [onNearestReals?, ← hleft.map_toReal, ← hright.map_toReal, compute?]
  cases hx : Number.ofTerm? (.const left none) with
  | none => rfl
  | some x =>
      cases hy : Number.ofTerm? (.const right none) with
      | none => rfl
      | some y =>
          have hreal : ∀ m n, x = .integer m → y ≠ .integer n := by
            rintro m n rfl rfl
            exact hlong ⟨hleft.isWord_of_integer hx, hright.isWord_of_integer hy⟩
          change ((operation.result? x y).bind fun value => some value.toTerm) =
            (operation.onReals? x.toReal y.toReal).map _
          rw [operation.result?_of_real hreal]
          cases operation.onReals? x.toReal y.toReal <;> rfl

theorem compute?_integer_of_long (operation : ArithmeticOperation) (hleft : IsLiteral left a)
    (hright : IsLiteral right b) (hlong : ¬ (isWord a ∧ isWord b)) :
    operation.compute? [.const left (some Number.integerType),
      .const right (some Number.integerType)] = none := by
  rw [compute?]
  rcases not_and_or.mp hlong with ha | hb
  · rw [Number.ofTerm?_integer_of_long hleft.readInteger?_toList ha]
    rfl
  · rw [Number.ofTerm?_integer_of_long hright.readInteger?_toList hb]
    cases Number.ofTerm? (.const left (some Number.integerType)) <;> rfl

end ArithmeticOperation

namespace Registry

variable {table : SymbolTable} {names : List String} {left right : String} {a b : Int}

/-- Arithmetic on integer literals is exact or silent as long as both fit 64 bits.  Where
one of them is longer, reals are derived: the value that the operation has for the reals
next to the literals.  With the type of integers written the same call fails. -/
theorem arithmetic_of_literals (hlists : table.Lists names)
    (hsize : (standard table).2.size ≤ SymbolTable.capacity) (hleft : IsLiteral left a)
    (hright : IsLiteral right b) (operation : ArithmeticOperation) (oid : Term) {result : Term}
    (hresult : result.IsUnbound) :
    let derived (type : Option String) (value : Term) :=
      Builtin.fact operation.builtin.name [value, .const left type, .const right type]
    let outcome (type : Option String) := (standard table).1.callAtom (standard table).2
      (.atom operation.builtin.name [oid, result, .const left type, .const right type])
    let exact := operation.onIntegers a b
    (isWord a ∧ isWord b → ∀ type ∈ [none, some "Integer"],
      outcome type = .ofAnswer (if isWord exact then
        some (derived type (.const (toString exact) (some "Integer"))) else none)) ∧
    (¬ (isWord a ∧ isWord b) →
      outcome none = .ofAnswer ((operation.onNearestReals? a b).map fun value =>
        derived none (.const (.ofList value.text) (some "Real"))) ∧
      outcome (some "Integer") = .fails) := by
  intro derived outcome exact
  have houtcome : ∀ type, outcome type = .ofAnswer
      ((operation.compute? [.const left type, .const right type]).map (derived type)) := by
    intro type
    have hcall := callAtom_standard_of_name hlists hsize operation.builtin
      [oid, result, .const left type, .const right type]
    rw [operation.answer?_builtin, Builtin.computing_of_isUnbound hresult rfl] at hcall
    exact hcall
  constructor
  · rintro ⟨ha, hb⟩ type htype
    have htype : type = none ∨ type = some Number.integerType := by
      simpa [Number.integerType] using htype
    rw [houtcome, operation.compute?_of_integers (hleft.writesInteger ha htype)
      (hright.writesInteger hb htype)]
    by_cases hword : isWord exact
    · rw [if_pos hword, if_pos hword]
      rfl
    · rw [if_neg hword, if_neg hword]
      rfl
  · intro hlong
    rw [houtcome, houtcome]
    constructor
    · rw [operation.compute?_of_long hleft hright hlong, Option.map_map]
      rfl
    · have hfails := operation.compute?_integer_of_long hleft hright hlong
      rw [Number.integerType] at hfails
      rw [hfails]
      rfl

/-- A factor that is the first below the integers of 64 bits makes the product a real. -/
theorem multiply_long_literal :
    let x (type : Option String) : Term := .const "-9223372036854775809" type
    let y (type : Option String) : Term := .const "3" type
    let outcome (type : Option String) := (standard ∅).1.callAtom (standard ∅).2
      (.atom "multiply" [.anon, .var 0 none, x type, y type])
    IsLiteral "-9223372036854775809" (-9223372036854775809) ∧ IsLiteral "3" 3 ∧
      (Term.var 0 none).IsUnbound ∧ ¬ (isWord (-9223372036854775809) ∧ isWord 3) ∧
      outcome none = .derives (Builtin.fact "multiply"
        [.const "-27670116110564327000" (some "Real"), x none, y none]) ∧
      outcome (some "Integer") = .fails := by
  intro x y outcome
  have hx : IsLiteral "-9223372036854775809" (-9223372036854775809) :=
    .negated (show _ = '-' :: "9223372036854775809".toList by decide +kernel) (by decide +kernel)
      (by decide +kernel)
  have hy : IsLiteral "3" 3 := .natural (by decide +kernel) (by decide +kernel)
  have hlong : ¬ (isWord (-9223372036854775809) ∧ isWord 3) := by decide
  obtain ⟨-, hreal⟩ := arithmetic_of_literals SymbolTable.lists_empty size_standard_empty hx hy
    .multiply .anon (show (Term.var 0 none).IsUnbound from trivial)
  obtain ⟨huntyped, htyped⟩ := hreal hlong
  refine ⟨hx, hy, trivial, hlong, huntyped.trans ?_, htyped⟩
  decide +kernel

/-- The sum with the first integer above those of 64 bits is derived, as a real that is not
the sum. -/
theorem add_long_literal_not_exact :
    let x : Term := .const "9223372036854775808" none
    let y : Term := .const "1" none
    IsLiteral "9223372036854775808" 9223372036854775808 ∧ IsLiteral "1" 1 ∧
      (standard ∅).1.callAtom (standard ∅).2 (.atom "add" [.anon, .var 0 none, x, y]) =
        .derives (Builtin.fact "add" [.const "9223372036854776000" (some "Real"), x, y]) := by
  refine ⟨.natural (by decide +kernel) (by decide +kernel),
    .natural (by decide +kernel) (by decide +kernel), ?_⟩
  rw [callAtom_standard SymbolTable.lists_empty size_standard_empty]
  decide +kernel

end Registry

end Posl
