import Mathlib.Algebra.Group.Int.Defs
import Posl.Proofs.Comparison

/-!
# Arithmetic of integers

Sums, differences and products of integers are exact, or not derived at all where 64
bits are too few.  A result that is bound to an integer already has to be the exact one.
-/

namespace Posl

/-! ## Integers in decimal -/

theorem digitsValue_toDigits (n : Nat) : digitsValue (Nat.toDigits 10 n) = n :=
  Nat.ofDigitChars_ten_toDigits

theorem isDigit_of_mem_toDigits {n : Nat} {c : Char} (hmem : c ∈ Nat.toDigits 10 n) : c.isDigit :=
  Nat.isDigit_of_mem_toDigits (by decide) (by decide) hmem

/-- There is no sign before digits. -/
theorem splitSign_of_isDigits {digits : List Char} (hdigits : Lexeme.isDigits digits) :
    splitSign digits = (false, digits) := by
  have hsign : ∀ c rest, ¬ c.isDigit → ¬ Lexeme.isDigits (c :: rest) := by
    intro c rest hc
    simp [Lexeme.isDigits, hc]
  rw [splitSign.eq_def]
  split
  · exact absurd hdigits (hsign '-' _ (by decide))
  · exact absurd hdigits (hsign '+' _ (by decide))
  · rfl

/-- Digits are read with the sign before them. -/
theorem readInteger?_of_splitSign {text digits : List Char} {negative : Bool}
    (hsign : splitSign text = (negative, digits)) (hdigits : Lexeme.isDigits digits) :
    readInteger? text =
      some (if negative then -(digitsValue digits : Int) else digitsValue digits) := by
  rw [readInteger?, hsign]
  exact if_pos hdigits

theorem isDigits_toDigits (n : Nat) : Lexeme.isDigits (Nat.toDigits 10 n) := by
  have hne : Nat.toDigits 10 n ≠ [] := Nat.toDigits_ne_nil
  have hdigits : ∀ c ∈ Nat.toDigits 10 n, c.isDigit := fun c hmem => isDigit_of_mem_toDigits hmem
  simpa [Lexeme.isDigits, hne] using hdigits

theorem toList_toString_ofNat (n : Nat) : (toString (Int.ofNat n)).toList = Nat.toDigits 10 n := by
  rw [Int.toString_eq_repr, Int.repr, Nat.toList_repr]

theorem toList_toString_negSucc (n : Nat) :
    (toString (Int.negSucc n)).toList = '-' :: Nat.toDigits 10 (n + 1) := by
  rw [Int.toString_eq_repr, Int.repr, String.toList_append, Nat.toList_repr]
  rfl

/-- The text of an integer is made of digits and a minus sign. -/
theorem eq_or_isDigit_of_mem_toString {value : Int} {c : Char}
    (hmem : c ∈ (toString value).toList) : c = '-' ∨ c.isDigit := by
  cases value with
  | ofNat n =>
      rw [toList_toString_ofNat] at hmem
      exact .inr (isDigit_of_mem_toDigits hmem)
  | negSucc n =>
      rw [toList_toString_negSucc] at hmem
      exact (List.mem_cons.mp hmem).imp_right isDigit_of_mem_toDigits

/-- An integer is read from its own text. -/
theorem readInteger?_toString (value : Int) :
    readInteger? (toString value).toList = some value := by
  cases value with
  | ofNat n =>
      have hdigits := isDigits_toDigits n
      rw [toList_toString_ofNat, readInteger?_of_splitSign (splitSign_of_isDigits hdigits) hdigits,
        digitsValue_toDigits]
      rfl
  | negSucc n =>
      have hsign : splitSign ('-' :: Nat.toDigits 10 (n + 1)) =
          (true, Nat.toDigits 10 (n + 1)) := rfl
      rw [toList_toString_negSucc, readInteger?_of_splitSign hsign (isDigits_toDigits _),
        digitsValue_toDigits]
      rfl

namespace Number

/-- The constant that shows an integer writes that integer. -/
theorem writesInteger_toTerm {value : Int} (hword : isWord value) :
    WritesInteger (integer value).toTerm value :=
  .intro (.inr rfl) (readInteger?_toString value) hword

/-- What is written as an integer fits into 64 bits, so it is no integer that does not. -/
theorem WritesInteger.ne_of_not_isWord {term : Term} {value other : Int}
    (hterm : WritesInteger term value) (hother : ¬ isWord other) : value ≠ other := by
  obtain ⟨-, -, hword⟩ := hterm
  rintro rfl
  exact hother hword

end Number

open Number (WritesInteger)

theorem isWord_iff {value : Int} : isWord value ↔ -2 ^ 63 ≤ value ∧ value < 2 ^ 63 := by
  rw [isWord, Bool.and_eq_true, decide_eq_true_iff, decide_eq_true_iff]
  omega

/-! ## Bound and unbound results -/

/-- A variable, with or without a name. -/
def Term.IsUnbound : Term → Prop
  | .var .. | .anon => True
  | .const .. | .expr .. | .atom .. => False

namespace Builtin

theorem accepts_of_isUnbound {result : Term} (hresult : result.IsUnbound) (computed : Term) :
    accepts result computed = true := by
  cases result with
  | var | anon => rfl
  | const | expr | atom => exact hresult.elim

theorem computing_of_isUnbound {call result : Term} {inputs : List Term}
    (hresult : result.IsUnbound) (hcall : call.operands = result :: inputs) (predicate : String)
    (compute? : List Term → Option Term) :
    computing predicate compute? call =
      (compute? inputs).map fun computed => fact predicate (computed :: inputs) := by
  simp only [computing_of_operands hcall, accepts_of_isUnbound hresult, if_true]
  exact Option.map_eq_bind.symm

/-- Numbers agree in value. -/
theorem accepts_of_numbers {name value : String} {type valueType : Option String} {x y : Number}
    (hx : Number.ofTerm? (.const name type) = some x)
    (hy : Number.ofTerm? (.const value valueType) = some y) :
    accepts (.const name type) (.const value valueType) = x.isEqual y := by
  rw [accepts, hx, hy]

/-- Integers agree where they are equal, however they are spelled. -/
theorem accepts_of_integers {result computed : Term} {bound value : Int}
    (hresult : WritesInteger result bound) (hcomputed : WritesInteger computed value) :
    accepts result computed = (bound == value) := by
  have hbound := hresult.ofTerm?
  have hvalue := hcomputed.ofTerm?
  cases hresult with
  | intro _ _ _ =>
      cases hcomputed with
      | intro _ _ _ => exact accepts_of_numbers hbound hvalue

end Builtin

/-! ## Exact results -/

namespace ArithmeticOperation

def builtin : ArithmeticOperation → StandardBuiltin
  | .add => .add
  | .subtract => .subtract
  | .multiply => .multiply

theorem answer?_builtin (operation : ArithmeticOperation) :
    operation.builtin.answer? = Builtin.computing operation.builtin.name operation.compute? := by
  cases operation <;> rfl

variable {x y : Term} {a b : Int}

/-- The exact value is computed, and nothing where it does not fit into 64 bits. -/
theorem compute?_of_integers (operation : ArithmeticOperation) (hx : WritesInteger x a)
    (hy : WritesInteger y b) :
    operation.compute? [x, y] =
      if isWord (operation.onIntegers a b) then
        some (Number.integer (operation.onIntegers a b)).toTerm
      else none := by
  rw [compute?, hx.ofTerm?, hy.ofTerm?]
  change ((operation.result? (.integer a) (.integer b)).bind fun value => some value.toTerm) = _
  rw [result?]
  split <;> rfl

/-- The three operations, by the names of their predicates. -/
theorem exists_of_mem {symbol : String} {exact : Int}
    (hexact : (symbol, exact) ∈ [("add", a + b), ("subtract", a - b), ("multiply", a * b)]) :
    ∃ operation : ArithmeticOperation,
      symbol = operation.builtin.name ∧ exact = operation.onIntegers a b := by
  simp only [List.mem_cons, Prod.mk.injEq, List.not_mem_nil, or_false] at hexact
  rcases hexact with ⟨rfl, rfl⟩ | ⟨rfl, rfl⟩ | ⟨rfl, rfl⟩
  · exact ⟨.add, rfl, rfl⟩
  · exact ⟨.subtract, rfl, rfl⟩
  · exact ⟨.multiply, rfl, rfl⟩

def fact (operation : ArithmeticOperation) (value : Int) (x y : Term) : Clause :=
  Builtin.fact operation.builtin.name [(Number.integer value).toTerm, x, y]

/-- An operation on integers asserts its exact value, if 64 bits suffice and the result
operand agrees. -/
theorem answer?_of_integers (operation : ArithmeticOperation) (hx : WritesInteger x a)
    (hy : WritesInteger y b) (oid result : Term) :
    operation.builtin.answer? (.atom operation.builtin.name [oid, result, x, y]) =
      if isWord (operation.onIntegers a b) ∧
          Builtin.accepts result (Number.integer (operation.onIntegers a b)).toTerm then
        some (operation.fact (operation.onIntegers a b) x y)
      else none := by
  rw [answer?_builtin, Builtin.computing_of_operands rfl, operation.compute?_of_integers hx hy]
  by_cases hword : isWord (operation.onIntegers a b)
  · simp [hword, fact]
  · simp [hword]

end ArithmeticOperation

namespace Registry

variable {table : SymbolTable} {names : List String}

/-- A call of an operation on integers is answered with the exact value, if 64 bits
suffice and the result operand agrees, and not at all if not. -/
theorem callAtom_of_integers (hlists : table.Lists names)
    (hsize : (standard table).2.size ≤ SymbolTable.capacity) {x y : Term} {a b : Int}
    (hx : WritesInteger x a) (hy : WritesInteger y b) (operation : ArithmeticOperation)
    (oid result : Term) :
    (standard table).1.callAtom (standard table).2
        (.atom operation.builtin.name [oid, result, x, y]) =
      .ofAnswer (if isWord (operation.onIntegers a b) ∧
          Builtin.accepts result (Number.integer (operation.onIntegers a b)).toTerm then
        some (operation.fact (operation.onIntegers a b) x y)
      else none) := by
  rw [callAtom_standard_of_name hlists hsize operation.builtin,
    operation.answer?_of_integers hx hy]

/-- Arithmetic on integers is exact or silent.  With the result unbound, the exact value
is derived where 64 bits suffice; a result that is an integer already is confirmed where
it is the exact value; and whatever the result operand is, nothing but the exact value is
derived, which is written as an integer. -/
theorem arithmetic_of_integers (hlists : table.Lists names)
    (hsize : (standard table).2.size ≤ SymbolTable.capacity) {x y : Term} {a b : Int}
    (hx : WritesInteger x a) (hy : WritesInteger y b) {symbol : String} {exact : Int}
    (hexact : (symbol, exact) ∈ [("add", a + b), ("subtract", a - b), ("multiply", a * b)])
    (oid : Term) :
    let derived := Builtin.fact symbol [.const (toString exact) (some "Integer"), x, y]
    let outcome (result : Term) := (standard table).1.callAtom (standard table).2
      (.atom symbol [oid, result, x, y])
    (∀ result : Term, result.IsUnbound → outcome result =
      .ofAnswer (if -2 ^ 63 ≤ exact ∧ exact < 2 ^ 63 then some derived else none)) ∧
    (∀ result value, WritesInteger result value →
      outcome result = .ofAnswer (if value = exact then some derived else none)) ∧
    ∀ result fact, outcome result = .derives fact →
      fact = derived ∧ WritesInteger (.const (toString exact) (some "Integer")) exact := by
  intro derived outcome
  obtain ⟨operation, rfl, rfl⟩ := ArithmeticOperation.exists_of_mem hexact
  have houtcome : ∀ result, outcome result = .ofAnswer
      (if isWord (operation.onIntegers a b) ∧
          Builtin.accepts result (Number.integer (operation.onIntegers a b)).toTerm then
        some derived
      else none) :=
    fun result => callAtom_of_integers hlists hsize hx hy operation oid result
  refine ⟨?_, ?_, ?_⟩
  · intro result hunbound
    rw [houtcome]
    simp only [Builtin.accepts_of_isUnbound hunbound, and_true, isWord_iff]
  · intro result value hvalue
    rw [houtcome]
    by_cases hword : isWord (operation.onIntegers a b)
    · simp only [hword, true_and, beq_iff_eq,
        Builtin.accepts_of_integers hvalue (Number.writesInteger_toTerm hword)]
    · have hne := hvalue.ne_of_not_isWord hword
      simp only [hword, false_and, if_false, if_neg hne, Bool.false_eq_true]
  · intro result fact hfact
    rw [houtcome] at hfact
    split at hfact
    · next hholds =>
        obtain ⟨hword, -⟩ := hholds
        exact ⟨(CallResult.derives.inj hfact).symm, Number.writesInteger_toTerm hword⟩
    · exact absurd hfact (by simp [CallResult.ofAnswer])

/-- The least integer of 64 bits is a product, and a bound result next to it is not
confirmed. -/
theorem multiply_least_integer :
    let x : Term := .const "-4611686018427387904" none
    let y : Term := .const "+02" (some "Integer")
    let outcome (result : Term) :=
      (standard ∅).1.callAtom (standard ∅).2 (.atom "multiply" [.anon, result, x, y])
    WritesInteger x (-4611686018427387904) ∧ WritesInteger y 2 ∧
      ("multiply", -9223372036854775808) ∈
        [("add", (-4611686018427387904 : Int) + 2), ("subtract", -4611686018427387904 - 2),
          ("multiply", -4611686018427387904 * 2)] ∧
      outcome (.var 0 none) = .derives
        (Builtin.fact "multiply" [.const "-9223372036854775808" (some "Integer"), x, y]) ∧
      outcome (.const "-9223372036854775807" none) = .fails := by
  intro x y outcome
  have hx : WritesInteger x (-4611686018427387904) :=
    .intro (.inl rfl) (by decide +kernel) (by decide)
  have hy : WritesInteger y 2 := .intro (.inr rfl) (by decide +kernel) (by decide)
  have hbound : WritesInteger (.const "-9223372036854775807" none) (-9223372036854775807) :=
    .intro (.inl rfl) (by decide +kernel) (by decide)
  have hexact : ("multiply", -9223372036854775808) ∈
      [("add", (-4611686018427387904 : Int) + 2), ("subtract", -4611686018427387904 - 2),
        ("multiply", -4611686018427387904 * 2)] := by decide
  have htext : toString (-9223372036854775808 : Int) = "-9223372036854775808" := by
    decide +kernel
  obtain ⟨hunbound, hinteger, -⟩ := arithmetic_of_integers SymbolTable.lists_empty
    size_standard_empty hx hy hexact .anon
  refine ⟨hx, hy, hexact, ?_, ?_⟩
  · refine (hunbound (.var 0 none) trivial).trans ?_
    rw [htext]
    rfl
  · exact (hinteger _ _ hbound).trans (congrArg CallResult.ofAnswer (if_neg (by decide)))

end Registry

end Posl
