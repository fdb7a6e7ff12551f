import Posl.Proofs.DerivedFacts

/-!
# Ground atoms

An atom of a parsed clause is ground exactly where an object identifier is written for it
and no variable, named or anonymous, stands anywhere in what is written.  The slot of an
identifier that is not written holds an anonymous variable, so the facts that built-ins
derive are not ground, although each of their operands is.
-/

namespace Posl

open Written

/-! ## Terms as written -/

namespace SourceTerm

/-- A term that stands in another one at any depth. -/
inductive IsPart (part : SourceTerm) : SourceTerm → Prop
  | whole : IsPart part part
  | arg {functor args arg} : arg ∈ args → IsPart part arg → IsPart part (.expr functor args)

def IsVariable : SourceTerm → Prop
  | .var .. | .anon => True
  | .const .. | .expr .. => False

/-- No part of the term is a variable. -/
def IsClosed (term : SourceTerm) : Prop := ∀ part, IsPart part term → ¬ part.IsVariable

theorem not_isClosed_of_isVariable {term : SourceTerm} (hterm : term.IsVariable) :
    ¬ term.IsClosed :=
  fun hclosed => hclosed term .whole hterm

theorem isClosed_const (name : String) (type : Option String) : (const name type).IsClosed := by
  intro part hpart
  cases hpart with
  | whole => exact id

theorem isClosed_expr_iff {functor : String} {args : List SourceTerm} :
    (expr functor args).IsClosed ↔ ∀ arg ∈ args, arg.IsClosed := by
  constructor
  · exact fun hclosed arg hmem part hpart => hclosed part (.arg hmem hpart)
  · intro hargs part hpart
    cases hpart with
    | whole => exact id
    | arg hmem hpart => exact hargs _ hmem part hpart

variable {names : List String}

theorem all_isGround_resolve_iff {terms : List SourceTerm}
    (hterms : ∀ term ∈ terms, (term.resolve names).isGround ↔ term.IsClosed) :
    (terms.map (resolve names)).all Term.isGround ↔ ∀ term ∈ terms, term.IsClosed := by
  rw [List.all_eq_true, List.forall_mem_map]
  exact forall₂_congr hterms

/-- The induction is on the term, as for `variableIndices_resolve`. -/
theorem isGround_resolve_iff : (term : SourceTerm) →
    ((term.resolve names).isGround ↔ term.IsClosed)
  | .var .. | .anon => iff_of_false Bool.false_ne_true (not_isClosed_of_isVariable trivial)
  | .const name type => iff_of_true rfl (isClosed_const name type)
  | .expr functor args => by
      have hargs := all_isGround_resolve_iff fun arg (_ : arg ∈ args) => isGround_resolve_iff arg
      rw [isClosed_expr_iff, ← hargs, resolve, resolveEach_eq_map, Term.isGround,
        Term.allGround_eq_all]

end SourceTerm

namespace SourceAtom

/-- No variable stands in the terms that are written, the object identifier among them. -/
def IsClosed (atom : SourceAtom) : Prop := ∀ term ∈ atom.terms, term.IsClosed

/-- The slot of an object identifier that is not written holds an anonymous variable, so the
atom is not ground whatever its arguments are. -/
theorem isGround_resolve_iff {names : List String} (atom : SourceAtom) :
    (atom.resolve names).isGround ↔ atom.oid.isSome ∧ atom.IsClosed := by
  obtain ⟨predicate, oid, args⟩ := atom
  have hargs := @SourceTerm.all_isGround_resolve_iff names args fun arg _ =>
    arg.isGround_resolve_iff
  cases oid with
  | none => exact iff_of_false Bool.false_ne_true fun hclosed => Bool.false_ne_true hclosed.1
  | some oid =>
      simp only [resolve, Term.isGround, Term.allGround, Term.allGround_eq_all, Option.map_some,
        Option.getD_some, Bool.and_eq_true, oid.isGround_resolve_iff, hargs, IsClosed, terms,
        Option.toList_some, List.singleton_append, List.forall_mem_cons, Option.isSome_some,
        true_and]

end SourceAtom

/-! ## Clauses and facts -/

namespace Clause

/-- The atoms of a clause are those that were written, one by one and in order. -/
theorem forall₂_isGround_ofSource (atoms : List SourceAtom) :
    List.Forall₂ (fun (atom : Term) (source : SourceAtom) =>
      atom.isGround ↔ source.oid.isSome ∧ source.IsClosed) (ofSource atoms).atoms atoms := by
  rw [ofSource, List.forall₂_map_left_iff, List.forall₂_same]
  exact fun source _ => source.isGround_resolve_iff

end Clause

theorem Term.IsConstant.isGround {term : Term} (hterm : term.IsConstant) : term.isGround := by
  obtain ⟨name, type, rfl⟩ := hterm
  rfl

namespace StandardBuiltin

/-- What a built-in asserts has constants for operands and nothing in the slot before
them. -/
theorem isGround_of_answer {builtin : StandardBuiltin} {call : Term} {fact : Clause}
    (hanswer : builtin.answer? call = some fact) :
    ∃ atom, fact.atoms = [atom] ∧ ¬ atom.isGround ∧
      ∀ operand ∈ atom.operands, operand.isGround := by
  obtain ⟨operands, rfl, hoperands⟩ := exists_answers hanswer
  exact ⟨_, rfl, Bool.false_ne_true, fun operand hmem => (hoperands.constant operand hmem).isGround⟩

end StandardBuiltin

namespace Clause

/-- Ground atoms are those with an object identifier in which no variable is written.  A
fact that a built-in derives has no object identifier, and is never one of them. -/
theorem ground_where_written (text : String) (builtin : StandardBuiltin) (call : Term) :
    (∀ clause, Clause.parse text = .ok clause →
      (∃ atoms, Whole Written.Clause atoms text.toList) ∧
      ∀ atoms, Whole Written.Clause atoms text.toList →
        List.Forall₂ (fun (atom : Term) (source : SourceAtom) =>
          atom.isGround ↔ source.oid.isSome ∧ source.IsClosed) clause.atoms atoms) ∧
    ∀ fact, builtin.answer? call = some fact →
      ∃ atom, fact.atoms = [atom] ∧ ¬ atom.isGround ∧
        ∀ operand ∈ atom.operands, operand.isGround := by
  refine ⟨fun clause hparse => ⟨?_, fun atoms hwhole => ?_⟩, fun _ =>
    StandardBuiltin.isGround_of_answer⟩
  · obtain ⟨atoms, hwhole, -⟩ := exists_readFrom_of_parse hparse
    exact ⟨atoms, hwhole⟩
  · obtain rfl := Except.ok.inj ((parse_of_whole hwhole).symm.trans hparse)
    exact forall₂_isGround_ofSource atoms

/-- An atom with an object identifier, one without, and one with a variable deep in it. -/
theorem ground_where_written_rule :
    let text := "p(o^f(a), 1) :- q(a), r(o^f(g(?X)))."
    let clause : Clause :=
      { atoms := [
          .atom "p" [.const "o" none, .expr "f" [.const "a" none], .const "1" none],
          .atom "q" [.anon, .const "a" none],
          .atom "r" [.const "o" none, .expr "f" [.expr "g" [.var 0 none]]]]
        variableNames := ["X"] }
    let call := Term.call "stringLength" [.var 0 none, .const "abc" none]
    let fact := Builtin.fact "stringLength" [.const "3" (some "Integer"), .const "abc" none]
    (Clause.parse text = .ok clause ∧ clause.atoms.map Term.isGround = [true, false, false] ∧
      ∃ atoms, Whole Written.Clause atoms text.toList ∧
        List.Forall₂ (fun (atom : Term) (source : SourceAtom) =>
          atom.isGround ↔ source.oid.isSome ∧ source.IsClosed) clause.atoms atoms) ∧
    StandardBuiltin.stringLength.answer? call = some fact ∧
      ∃ atom, fact.atoms = [atom] ∧ ¬ atom.isGround ∧
        ∀ operand ∈ atom.operands, operand.isGround := by
  intro text clause call fact
  obtain ⟨hclauses, hfacts⟩ := ground_where_written text .stringLength call
  have hparse : Clause.parse text = .ok clause := by decide +kernel
  have hanswer : StandardBuiltin.stringLength.answer? call = some fact := by decide +kernel
  obtain ⟨⟨atoms, hwhole⟩, hground⟩ := hclauses clause hparse
  exact ⟨⟨hparse, by decide, atoms, hwhole, hground atoms hwhole⟩, hanswer, hfacts fact hanswer⟩

/-- A fact that a built-in derives, as it is written and read: there is no variable in it,
and still it is not ground. -/
theorem isGround_misses_derived_fact :
    let operands : List Term := [.const "3" (some "Integer"), .const "1" none, .const "2" none]
    let source : SourceAtom :=
      { predicate := "add"
        oid := none
        args := [.const "3" (some "Integer"), .const "1" none, .const "2" none] }
    StandardBuiltin.add.answer? (.call "add" [.var 0 none, .const "1" none, .const "2" none]) =
        some (Builtin.fact "add" operands) ∧
      Clause.parse "add(3:Integer, 1, 2)." = .ok (Builtin.fact "add" operands) ∧
      Whole Written.Clause [source] "add(3:Integer, 1, 2).".toList ∧ source.IsClosed ∧
      (Builtin.fact "add" operands).atoms = [source.resolve []] ∧
      ¬ (source.resolve []).isGround := by
  intro operands source
  have hanswer : StandardBuiltin.add.answer?
      (.call "add" [.var 0 none, .const "1" none, .const "2" none]) =
        some (Builtin.fact "add" operands) := by decide +kernel
  have hparse : Clause.parse "add(3:Integer, 1, 2)." = .ok (Builtin.fact "add" operands) := by
    decide +kernel
  have hclause := IsParsed.wellFormed ⟨_, .inr (.inl hparse)⟩
  have hsource : (Builtin.fact "add" operands).toSource = [source] := rfl
  have hchars : (Builtin.fact "add" operands).chars = "add(3:Integer, 1, 2).".toList := by
    decide +kernel
  have hclosed : source.IsClosed := by
    simp [source, SourceAtom.IsClosed, SourceAtom.terms, SourceTerm.isClosed_const]
  exact ⟨hanswer, hparse, hsource ▸ hchars ▸ hclause.whole_chars.1, hclosed, rfl, by decide⟩

end Clause

end Posl
