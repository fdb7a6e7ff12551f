import Posl.Clause
import Posl.Number

/-!
# Answers of built-ins

A built-in that computes a value takes the result as its first operand.  A result
that is bound already only filters: it has to agree with the value.
-/

namespace Posl.Builtin

/-- Whether a result operand agrees with a computed constant.  Numbers agree in
value.  Any other constant has to have the same text, and the same type if a type
is written. -/
def accepts (result computed : Term) : Bool :=
  match result, computed with
  | .var .., _ | .anon, _ => true
  | .const name type, .const value valueType =>
    match Number.ofTerm? result, Number.ofTerm? computed with
    | some x, some y => x.isEqual y
    | _, _ => name == value && (type.isNone || type == valueType)
  | _, _ => false

/-- The fact that a call of the predicate with these operands holds. -/
def fact (predicate : String) (operands : List Term) : Clause :=
  { atoms := [.call predicate operands], variableNames := [] }

/-- The answer of a built-in that computes the first operand from the others. -/
def computing (predicate : String) (compute? : List Term → Option Term) (call : Term) :
    Option Clause := do
  match call.operands with
  | [] => none
  | result :: inputs =>
    let computed ← compute? inputs
    if accepts result computed then some (fact predicate (computed :: inputs)) else none

/-- A call is answered by what is computed from its inputs, if its result agrees. -/
theorem computing_of_operands {call result : Term} {inputs : List Term}
    (hcall : call.operands = result :: inputs) (predicate : String)
    (compute? : List Term → Option Term) :
    computing predicate compute? call = (compute? inputs).bind fun computed =>
      if accepts result computed then some (fact predicate (computed :: inputs)) else none := by
  rw [computing, hcall]
  rfl

theorem computing_eq_some_iff {predicate : String} {compute? : List Term → Option Term}
    {call : Term} {answer : Clause} :
    computing predicate compute? call = some answer ↔
      ∃ result inputs computed, call.operands = result :: inputs ∧
        compute? inputs = some computed ∧ accepts result computed ∧
        answer = fact predicate (computed :: inputs) := by
  constructor
  · intro hanswer
    cases hoperands : call.operands with
    | nil =>
        rw [computing, hoperands] at hanswer
        cases hanswer
    | cons result inputs =>
        rw [computing_of_operands hoperands] at hanswer
        obtain ⟨computed, hcomputed, hanswer⟩ := Option.bind_eq_some_iff.mp hanswer
        obtain ⟨haccepts, hanswer⟩ := Option.ite_none_right_eq_some.mp hanswer
        exact ⟨result, inputs, computed, rfl, hcomputed, haccepts, (Option.some.inj hanswer).symm⟩
  · rintro ⟨result, inputs, computed, hoperands, hcomputed, haccepts, rfl⟩
    rw [computing_of_operands hoperands, hcomputed, Option.bind_some, if_pos haccepts]

/-- The answer of a built-in that tests its operands and asserts the call as it
stands. -/
def testing (predicate : String) (holds : List Term → Bool) (call : Term) : Option Clause :=
  if holds call.operands then some (fact predicate call.operands) else none

theorem testing_eq_some_iff {predicate : String} {holds : List Term → Bool} {call : Term}
    {answer : Clause} :
    testing predicate holds call = some answer ↔
      holds call.operands ∧ answer = fact predicate call.operands := by
  rw [testing, Option.ite_none_right_eq_some, Option.some_inj, eq_comm (a := answer)]

end Posl.Builtin
