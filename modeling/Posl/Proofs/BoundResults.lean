import Posl.Proofs.Arithmetic
import Posl.Proofs.DerivedFacts

/-!
# Results that are bound

A result that a call has already only filters: the call derives what it would derive with
the result unbound, or nothing.  A fact that was derived has the result that is computed,
so it is derived again when it is called.
-/

namespace Posl

/-! ## Calls by their operands -/

namespace Term

/-- A term that can be called as a predicate over operands, whether it is an atom, with or
without an object identifier, or an expression. -/
def Calls (term : Term) (predicate : String) (operands : List Term) : Prop :=
  term.symbolName? = some predicate ∧ term.operands = operands

theorem calls_call (predicate : String) (operands : List Term) :
    (call predicate operands).Calls predicate operands := ⟨rfl, rfl⟩

def IsNested : Term → Prop
  | .expr .. | .atom .. => True
  | .var .. | .anon | .const .. => False

end Term

/-! ## Agreement with a computed constant -/

theorem Number.isEqual_self (number : Number) : number.isEqual number := by
  cases number with
  | integer value => exact beq_self_eq_true value
  | real value => exact beq_self_eq_true value.value

namespace Builtin

theorem accepts_of_isNested {result : Term} (hresult : result.IsNested) (computed : Term) :
    accepts result computed = false := by
  cases result with
  | expr | atom => rfl
  | var | anon | const => exact hresult.elim

/-- Constants that are not both numbers agree in their text, and in the type if the result
has one. -/
theorem accepts_of_no_number {name value : String} {type valueType : Option String}
    (hnumber : Number.ofTerm? (.const name type) = none ∨
      Number.ofTerm? (.const value valueType) = none) :
    accepts (.const name type) (.const value valueType) ↔
      name = value ∧ (type = none ∨ type = valueType) := by
  rcases hnumber with hresult | hcomputed
  · simp [accepts, hresult]
  · cases hresult : Number.ofTerm? (.const name type) <;> simp [accepts, hresult, hcomputed]

/-- A constant that is no number agrees with a computed one of the same text and of its type,
if it has one. -/
theorem accepts_computed_iff {name : String} {type : Option String} {computed : Term}
    (hnumber : Number.ofTerm? (.const name type) = none) (hcomputed : IsComputed computed) :
    accepts (.const name type) computed ↔ ∃ computedType,
      computed = .const name (some computedType) ∧ (type = none ∨ type = some computedType) := by
  cases hcomputed with
  | @intro value computedType _ =>
      rw [accepts_of_no_number (.inl hnumber)]
      constructor
      · rintro ⟨rfl, htype⟩
        exact ⟨computedType, rfl, htype⟩
      · rintro ⟨otherType, hother, htype⟩
        obtain ⟨rfl, hsame⟩ := Term.const.inj hother
        exact ⟨rfl, hsame ▸ htype⟩

theorem accepts_self {term : Term} (hterm : term.IsConstant) : accepts term term := by
  obtain ⟨name, type, rfl⟩ := hterm
  cases hnumber : Number.ofTerm? (.const name type) with
  | none => simp [accepts, hnumber]
  | some number => simp [accepts, hnumber, number.isEqual_self]

end Builtin

/-! ## Bound results filter -/

namespace Registry

variable {table : SymbolTable} {names : List String} {builtin : StandardBuiltin}

/-- Of a call with these inputs only the result decides between the one fact that there is
to derive and none. -/
theorem callAtom_of_computes (hlists : table.Lists names)
    (hsize : (standard table).2.size ≤ SymbolTable.capacity) (hcomputes : builtin.computes)
    (inputs : List Term) :
    (∀ result call, call.Calls builtin.name (result :: inputs) →
      (standard table).1.callAtom (standard table).2 call = .fails) ∨
    ∃ computed, IsComputed computed ∧ ∀ result call, call.Calls builtin.name (result :: inputs) →
      (standard table).1.callAtom (standard table).2 call =
        if Builtin.accepts result computed then
          .derives (Builtin.fact builtin.name (computed :: inputs))
        else .fails := by
  obtain ⟨compute?, hcompute, hanswer⟩ := StandardBuiltin.exists_computing hcomputes
  have hcall : ∀ result call, call.Calls builtin.name (result :: inputs) →
      (standard table).1.callAtom (standard table).2 call =
        .ofAnswer ((compute? inputs).bind fun computed => if Builtin.accepts result computed then
          some (Builtin.fact builtin.name (computed :: inputs)) else none) := by
    rintro result call ⟨hname, hoperands⟩
    rw [callAtom_standard_of_symbolName? hlists hsize hname, hanswer,
      Builtin.computing_of_operands hoperands]
  cases hcomputed : compute? inputs with
  | none =>
      refine .inl fun result call hcalls => ?_
      rw [hcall result call hcalls, hcomputed]
      rfl
  | some computed =>
      obtain ⟨-, hresult⟩ := hcompute hcomputed
      refine .inr ⟨computed, hresult, fun result call hcalls => ?_⟩
      rw [hcall result call hcalls, hcomputed, Option.bind_some]
      split <;> rfl

/-- What a result that is bound changes about a call: nothing is derived but what is
derived without it, nested terms agree with nothing, and a constant that is no number
agrees only with the text and the type that are computed. -/
theorem bound_result_filters (hlists : table.Lists names)
    (hsize : (standard table).2.size ≤ SymbolTable.capacity) (hcomputes : builtin.computes)
    (inputs : List Term) :
    let outcome := (standard table).1.callAtom (standard table).2
    let free := outcome (.call builtin.name (.anon :: inputs))
    let Bound (result call : Term) := call.Calls builtin.name (result :: inputs)
    (∀ result call, Bound result call → result.IsUnbound → outcome call = free) ∧
    (free = .fails ∨ ∃ fact, free = .derives fact) ∧
    (∀ result call, Bound result call → outcome call = .fails ∨ outcome call = free) ∧
    (∀ result call, Bound result call → result.IsNested → outcome call = .fails) ∧
    (∀ name type call, Bound (.const name type) call →
      Number.ofTerm? (.const name type) = none → ∀ fact,
        outcome call = .derives fact ↔ free = .derives fact ∧ ∃ computedType,
          fact = Builtin.fact builtin.name (.const name (some computedType) :: inputs) ∧
          (type = none ∨ type = some computedType)) := by
  intro outcome free Bound
  have hanonymous : Bound .anon (.call builtin.name (.anon :: inputs)) := Term.calls_call _ _
  rcases callAtom_of_computes hlists hsize hcomputes inputs with
    hfails | ⟨computed, hcomputed, houtcome⟩
  · have hfree : free = .fails := hfails _ _ hanonymous
    refine ⟨fun result call hcall _ => (hfails result call hcall).trans hfree.symm, .inl hfree,
      fun result call hcall => .inl (hfails result call hcall),
      fun result call hcall _ => hfails result call hcall, ?_⟩
    intro name type call hcall _ fact
    have hcall : outcome call = .fails := hfails _ call hcall
    simp [hcall, hfree]
  · replace houtcome : ∀ result call, Bound result call → outcome call =
        if Builtin.accepts result computed then
          .derives (Builtin.fact builtin.name (computed :: inputs))
        else .fails := houtcome
    have hfree : free = .derives (Builtin.fact builtin.name (computed :: inputs)) :=
      houtcome _ _ hanonymous
    refine ⟨?_, .inr ⟨_, hfree⟩, ?_, ?_, ?_⟩
    · intro result call hcall hunbound
      rw [houtcome result call hcall, if_pos (Builtin.accepts_of_isUnbound hunbound computed),
        hfree]
    · intro result call hcall
      rw [houtcome result call hcall, hfree]
      split
      · exact .inr rfl
      · exact .inl rfl
    · intro result call hcall hnested
      rw [houtcome result call hcall, if_neg]
      simp [Builtin.accepts_of_isNested hnested]
    · intro name type call hcall hnumber fact
      rw [hfree, houtcome _ call hcall]
      constructor
      · intro hfact
        split at hfact
        · next haccepts =>
            obtain ⟨computedType, rfl, htype⟩ :=
              (Builtin.accepts_computed_iff hnumber hcomputed).mp haccepts
            exact ⟨hfact, computedType, (CallResult.derives.inj hfact).symm, htype⟩
        · cases hfact
      · rintro ⟨hfact, computedType, hsame, htype⟩
        have hresult : computed = .const name (some computedType) := by
          simpa [Builtin.fact, Term.call] using (CallResult.derives.inj hfact).trans hsame
        rw [if_pos ((Builtin.accepts_computed_iff hnumber hcomputed).mpr ⟨_, hresult, htype⟩),
          hfact]

/-- A constant that is bound in the place of a text is confirmed under the type of texts,
and under no other type. -/
theorem stringConcatenate_bound :
    let parts : List Term := [.const "a" none, .const "12.0" (some "Real")]
    let result (type : Option String) : Term := .const "a12.0" type
    let call (type : Option String) : Term :=
      .atom "stringConcatenate" (.const "q" none :: result type :: parts)
    let fact := Builtin.fact "stringConcatenate" (result (some "String") :: parts)
    let outcome := (standard ∅).1.callAtom (standard ∅).2
    StandardBuiltin.stringConcatenate.computes ∧
      (∀ type, (call type).Calls "stringConcatenate" (result type :: parts)) ∧
      Number.ofTerm? (result (some "String")) = none ∧
      Number.ofTerm? (result (some "Name")) = none ∧
      outcome (call (some "String")) = .derives fact ∧
      outcome (call (some "Name")) ≠ .derives fact := by
  intro parts result call fact outcome
  have hcalls : ∀ type, (call type).Calls "stringConcatenate" (result type :: parts) :=
    fun type => ⟨rfl, rfl⟩
  have hstring : Number.ofTerm? (result (some "String")) = none := by decide
  have hname : Number.ofTerm? (result (some "Name")) = none := by decide
  have hcomputes : StandardBuiltin.stringConcatenate.computes := rfl
  obtain ⟨-, -, -, -, hconstant⟩ :=
    bound_result_filters SymbolTable.lists_empty size_standard_empty hcomputes parts
  have hfree : (standard ∅).1.callAtom (standard ∅).2
      (.call "stringConcatenate" (.anon :: parts)) = .derives fact := by
    rw [callAtom_standard SymbolTable.lists_empty size_standard_empty]
    decide +kernel
  refine ⟨rfl, hcalls, hstring, hname, ?_, fun hfact => ?_⟩
  · exact (hconstant _ _ _ (hcalls _) hstring fact).mpr ⟨hfree, "String", rfl, .inr rfl⟩
  · obtain ⟨-, type, hsame, htype⟩ := (hconstant _ _ _ (hcalls _) hname fact).mp hfact
    obtain rfl : type = "String" := by
      simpa [fact, result, Builtin.fact, Term.call, StandardBuiltin.name, eq_comm] using hsame
    exact absurd htype (by decide)

end Registry

/-! ## Derived facts are confirmed -/

namespace Builtin

variable {predicate : String} {call : Term} {answer : Clause}

/-- A fact asks for a value that agrees with what is computed again, and its inputs are
those of the call. -/
theorem computing_of_answer {compute? : List Term → Option Term} (hcompute : OfConstants compute?)
    (hanswer : computing predicate compute? call = some answer) :
    ∃ operands, answer = fact predicate operands ∧
      computing predicate compute? (.call predicate operands) = some answer := by
  obtain ⟨-, inputs, computed, -, hcomputed, -, rfl⟩ := computing_eq_some_iff.mp hanswer
  obtain ⟨-, hconstant⟩ := hcompute hcomputed
  have haccepts : accepts computed computed := accepts_self hconstant.isConstant
  exact ⟨computed :: inputs, rfl, computing_eq_some_iff.mpr
    ⟨computed, inputs, computed, Term.operands_call _ _, hcomputed, haccepts, rfl⟩⟩

/-- A comparison that asserts a call holds for the operands of the fact. -/
theorem testing_of_answer {holds : List Term → Bool}
    (hanswer : testing predicate holds call = some answer) :
    ∃ operands, answer = fact predicate operands ∧
      testing predicate holds (.call predicate operands) = some answer := by
  obtain ⟨hholds, rfl⟩ := testing_eq_some_iff.mp hanswer
  exact ⟨call.operands, rfl, testing_eq_some_iff.mpr
    ⟨by rwa [Term.operands_call], by rw [Term.operands_call]⟩⟩

end Builtin

/-- A built-in that is asked about its own answer gives it again. -/
theorem StandardBuiltin.answer?_of_answer {builtin : StandardBuiltin} {call : Term}
    {fact : Clause} (hanswer : builtin.answer? call = some fact) :
    ∃ operands, fact = Builtin.fact builtin.name operands ∧
      builtin.answer? (.call builtin.name operands) = some fact := by
  by_cases hcomputes : builtin.computes
  · obtain ⟨compute?, hcompute, hcomputing⟩ := exists_computing hcomputes
    rw [hcomputing] at hanswer ⊢
    exact Builtin.computing_of_answer hcompute hanswer
  · obtain ⟨holds, htesting⟩ := exists_testing hcomputes
    rw [htesting] at hanswer ⊢
    exact Builtin.testing_of_answer hanswer

namespace Registry

theorem exists_atom_of_call {registry : Registry} {table : SymbolTable} {clause : Clause}
    {index : Nat} {result : CallResult} (hcall : registry.call table clause index = .ok result) :
    ∃ atom, clause.atoms[index]? = some atom ∧ registry.callAtom table atom = result := by
  rw [call, Clause.atomAt] at hcall
  split at hcall
  · next atom hatom => exact ⟨atom, hatom, Except.ok.inj hcall⟩
  · cases hcall

/-- A fact that a call derives is confirmed: called in its turn, it derives itself.  Names
that came into the table after the registry was made do not matter, nor how many there
are. -/
theorem derived_fact_confirmed {table later : SymbolTable}
    (hextends : later.Extends (standard table).2) {clause : Clause} {index : Nat} {fact : Clause}
    (hcall : (standard table).1.call later clause index = .ok (.derives fact)) :
    (standard table).1.call later fact 0 = .ok (.derives fact) := by
  obtain ⟨atom, -, hatom⟩ := exists_atom_of_call hcall
  obtain ⟨routed, source, ⟨-, hsame⟩, -, hbuiltin, hanswer⟩ :=
    exists_source_of_callAtom hextends hatom
  obtain ⟨operands, rfl, hanswer⟩ := source.answer?_of_answer hanswer
  have hroute : (standard table).1.route? later (.call source.name operands) = some routed :=
    hbuiltin
  have hagain : (standard table).1.callAtom later (.call source.name operands) =
      .derives (Builtin.fact source.name operands) := by
    rw [callAtom_of_route?_some hroute, hsame, hanswer]
    rfl
  exact congrArg Except.ok hagain

/-- A sum that is bound in another spelling, behind an object identifier: the fact has the
computed spelling and no identifier. -/
theorem derived_add_confirmed :
    let x : Term := .const "5" none
    let y : Term := .const "7" (some "Integer")
    let clause : Clause :=
      { atoms := [.call "r" [], .atom "add" [.const "q" none, .const "12.0" none, x, y]]
        variableNames := [] }
    let fact := Builtin.fact "add" [.const "12" (some "Integer"), x, y]
    (standard ∅).1.call (standard ∅).2 clause 1 = .ok (.derives fact) ∧
      (standard ∅).1.call (standard ∅).2 fact 0 = .ok (.derives fact) := by
  intro x y clause fact
  have hcall : (standard ∅).1.call (standard ∅).2 clause 1 = .ok (.derives fact) := by
    have hsum : StandardBuiltin.callAtom (.atom "add" [.const "q" none, .const "12.0" none, x, y]) =
        .derives fact := by decide +kernel
    rw [call_standard SymbolTable.lists_empty size_standard_empty]
    exact congrArg Except.ok hsum
  exact ⟨hcall, derived_fact_confirmed (.refl _) hcall⟩

end Registry

end Posl
