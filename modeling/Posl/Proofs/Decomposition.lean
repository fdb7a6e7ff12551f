import Posl.Proofs.QueryDecisions

/-!
# Operands of decomposed queries

What becomes of each operand of a query.  In a bound query a variable in front receives the
bound, an anonymous operand stands for nothing, and every other operand is a class: none is
lost, and none is taken twice.
-/

namespace Posl

/-! ## Bound queries -/

/-- The operands of a bound query but for a variable in front, which receives the bound. -/
def withoutReceiver : List Term → List Term
  | .var .. :: rest => rest
  | operands => operands

theorem withoutReceiver_of_ne_var {first : Term} (hfirst : ∀ index type, first ≠ .var index type)
    (rest : List Term) : withoutReceiver (first :: rest) = first :: rest := by
  cases first with
  | var index type => exact absurd rfl (hfirst index type)
  | anon | const | expr | atom => rfl

/-- The receiver of a bound is a variable, so leaving it out loses no anonymous operand. -/
theorem count_anon_withoutReceiver (operands : List Term) :
    (withoutReceiver operands).count .anon = operands.count .anon := by
  cases operands with
  | nil => rfl
  | cons first rest =>
      cases first with
      | var => exact (List.count_cons_of_ne (by simp)).symm
      | anon | const | expr | atom => rfl

/-- Every operand is a class or anonymous. -/
theorem length_classTexts_add_count (names : List String) (operands : List Term) :
    (classTexts names operands).length + operands.count .anon = operands.length := by
  induction operands with
  | nil => rfl
  | cons operand operands ih =>
      rw [classTexts, List.length_map] at ih ⊢
      by_cases hanonymous : operand = .anon
      · subst hanonymous
        rw [List.filter_cons_of_neg (by simp), List.count_cons_self, List.length_cons]
        omega
      · rw [List.filter_cons_of_pos (by simpa using hanonymous),
          List.count_cons_of_ne hanonymous, List.length_cons, List.length_cons]
        omega

namespace MeansBound

variable {names : List String} {first : Term} {rest : List Term} {request : BoundQuery}

theorem resultVariable_eq_some_iff (hmeans : MeansBound names (first :: rest) request)
    (name : String) :
    request.resultVariable = some name ↔
      ∃ index type, first = .var index type ∧ names[index]? = some name := by
  cases hmeans with
  | named hname => simp [hname, eq_comm]
  | anonymous => simp
  | literal hliteral => simp [hliteral.1]

theorem classes_eq (hmeans : MeansBound names (first :: rest) request) :
    request.classes = classTexts names (withoutReceiver (first :: rest)) := by
  cases hmeans with
  | named | anonymous => rfl
  | literal hliteral => rw [withoutReceiver_of_ne_var hliteral.1]

/-- Only the variable that receives the bound is set apart. -/
theorem length_withoutReceiver (hmeans : MeansBound names (first :: rest) request) :
    (first :: rest).length = (withoutReceiver (first :: rest)).length +
      if request.resultVariable.isSome then 1 else 0 := by
  cases hmeans with
  | named | anonymous => rfl
  | literal hliteral =>
      rw [withoutReceiver_of_ne_var hliteral.1]
      rfl

/-- Each operand is a class, the receiver or anonymous, and none is two of them. -/
theorem length_eq (hmeans : MeansBound names (first :: rest) request) :
    (first :: rest).length = request.classes.length +
      (if request.resultVariable.isSome then 1 else 0) + (first :: rest).count .anon := by
  have hclasses := length_classTexts_add_count names (withoutReceiver (first :: rest))
  rw [← hmeans.classes_eq, count_anon_withoutReceiver] at hclasses
  rw [hmeans.length_withoutReceiver, ← hclasses, Nat.add_right_comm]

end MeansBound

namespace QueryAtom

/-- The decomposition of a bound query loses no operand and takes none twice.  It succeeds
if there is an operand and the variable in front, where there is one, has a name. -/
theorem bound_keeps_operands {query : QueryAtom} (hfamily : query.predicate.family = .bound)
    {oid first : Term} {rest : List Term} (hargs : query.args = oid :: first :: rest)
    (hnamed : first.IsNamed query.variableNames) :
    ∃ request, query.bound = .ok request ∧
      (∀ name, request.resultVariable = some name ↔
        ∃ index type, first = .var index type ∧ query.variableNames[index]? = some name) ∧
      request.classes = ((withoutReceiver (first :: rest)).filter (· ≠ .anon)).map
        (Term.bare query.variableNames) ∧
      query.arity = request.classes.length +
        (if request.resultVariable.isSome then 1 else 0) + (first :: rest).count .anon := by
  obtain ⟨request, hmeans⟩ := exists_meansBound hnamed rest
  have harity : query.arity = (first :: rest).length := by
    rw [arity, hargs, List.length_cons, Nat.add_sub_cancel]
  exact ⟨request, bound_of_means hfamily hargs hmeans, hmeans.resultVariable_eq_some_iff,
    hmeans.classes_eq, harity.trans hmeans.length_eq⟩

/-- A variable with a type receives the bound; anonymous operands and variables further
behind stand among the classes, and only the latter are kept. -/
theorem bound_keeps_operands_mixed :
    let query : QueryAtom :=
      { predicate := .glb
        args := [.const "q" none, .var 1 (some "T"), .const "a b" none, .anon,
          .expr "f" [.anon, .var 0 none], .var 1 (some "T")]
        variableNames := ["Y", "X"] }
    let request : BoundQuery :=
      { resultVariable := some "X", classes := ["\"a b\"", "f(_, Y)", "X:T"] }
    query.predicate.family = .bound ∧ (Term.var 1 (some "T")).IsNamed query.variableNames ∧
      query.bound = .ok request ∧ query.arity = request.classes.length + 1 + 1 := by
  intro query request
  have hnamed : (Term.var 1 (some "T")).IsNamed query.variableNames := by
    rintro index type ⟨⟩
    exact ⟨"X", rfl⟩
  obtain ⟨found, hfound, -, -, harity⟩ := bound_keeps_operands rfl rfl hnamed
  have hbound : query.bound = .ok request := by decide +kernel
  obtain rfl := Except.ok.inj (hfound.symm.trans hbound)
  exact ⟨rfl, hnamed, hbound, harity⟩

end QueryAtom

end Posl
