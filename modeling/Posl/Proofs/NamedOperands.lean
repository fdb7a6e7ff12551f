import Mathlib.Data.List.Forall2
import Posl.Proofs.QueryDecisions
import Posl.Proofs.RoundTrip

/-!
# Operands by name

A request says which variables a query has by their names alone.  How they are numbered, and
what stands in the slot of the object identifier, makes no difference to it.
-/

namespace Posl

/-- A term with its variables given by name.  Unlike a term as written it may have atoms in
it. -/
inductive NamedTerm where
  | var (name : String) (type : Option String)
  | anon
  | const (name : String) (type : Option String)
  | expr (functor : String) (args : List NamedTerm)
  | atom (predicate : String) (args : List NamedTerm)

namespace Term

mutual

/-- The term with each variable given by the name that it has in the table. -/
def named (names : List String) : Term → NamedTerm
  | .var index type => .var (names.getD index "") type
  | .anon => .anon
  | .const name type => .const name type
  | .expr functor args => .expr functor (namedEach names args)
  | .atom predicate args => .atom predicate (namedEach names args)

def namedEach (names : List String) : List Term → List NamedTerm
  | [] => []
  | term :: terms => named names term :: namedEach names terms

end

@[simp]
theorem namedEach_eq_map (names : List String) (terms : List Term) :
    namedEach names terms = terms.map (named names) := by
  induction terms with
  | nil => rfl
  | cons term terms ih => simp [namedEach, ih]

/-- Whether all variables of a term are in the table. -/
def IsListed (names : List String) (term : Term) : Prop :=
  ∀ index ∈ term.variableIndices, index < names.length

/-- Two terms, each under a table that has its variables, that differ in nothing but the
numbers of the variables. -/
structure Alike (names others : List String) (left right : Term) : Prop where
  left_listed : left.IsListed names
  right_listed : right.IsListed others
  named_eq : left.named names = right.named others

section

variable {names others : List String} {left right : Term}

@[simp]
theorem isListed_var {index : Nat} {type : Option String} :
    (var index type).IsListed names ↔ index < names.length := by
  simp [IsListed, variableIndices]

theorem IsListed.of_mem {args : List Term} (hargs : ∀ index ∈ variableIndicesOfEach args,
    index < names.length) : ∀ arg ∈ args, arg.IsListed names := by
  intro arg hmem index hindex
  rw [variableIndicesOfEach_eq_flatMap] at hargs
  exact hargs index (List.mem_flatMap_of_mem hmem hindex)

/-- A variable in the table is shown by the name that it has there. -/
theorem variableName_of_lt {index : Nat} (hindex : index < names.length) :
    variableName names index = (names.getD index "").toList := by
  simp [variableName, hindex]

theorem operand_var_of_lt {index : Nat} (hindex : index < names.length) (type : Option String) :
    (var index type).operand names = .variable (names.getD index "") := by
  simp [operand, hindex]

section Named

variable {term : Term}

/-- Only a variable has a named variable for its form, so the two terms of a pair are of one
kind. -/
theorem named_eq_var_iff {name : String} {type : Option String} :
    term.named names = .var name type ↔
      ∃ index, term = .var index type ∧ names.getD index "" = name := by
  cases term <;> simp [named, and_comm]

theorem named_eq_anon_iff : term.named names = .anon ↔ term = .anon := by
  cases term <;> simp [named]

theorem named_eq_const_iff {name : String} {type : Option String} :
    term.named names = .const name type ↔ term = .const name type := by
  cases term <;> simp [named]

theorem named_eq_expr_iff {functor : String} {arguments : List NamedTerm} :
    term.named names = .expr functor arguments ↔
      ∃ args, term = .expr functor args ∧ args.map (named names) = arguments := by
  cases term <;> simp [named]

theorem named_eq_atom_iff {predicate : String} {arguments : List NamedTerm} :
    term.named names = .atom predicate arguments ↔
      ∃ args, term = .atom predicate args ∧ args.map (named names) = arguments := by
  cases term <;> simp [named]

end Named

/-- Operands with equal named forms are alike in pairs. -/
theorem forall₂_alike {lefts rights : List Term} (hlefts : ∀ term ∈ lefts, term.IsListed names)
    (hrights : ∀ term ∈ rights, term.IsListed others)
    (hnamed : lefts.map (named names) = rights.map (named others)) :
    List.Forall₂ (Alike names others) lefts rights := by
  induction lefts generalizing rights with
  | nil =>
      obtain rfl := List.map_eq_nil_iff.mp hnamed.symm
      exact .nil
  | cons left lefts ih =>
      cases rights with
      | nil => simp at hnamed
      | cons right rights =>
          obtain ⟨hleft, hlefts⟩ := List.forall_mem_cons.mp hlefts
          obtain ⟨hright, hrights⟩ := List.forall_mem_cons.mp hrights
          obtain ⟨hfirst, hothers⟩ := List.cons.inj hnamed
          exact .cons ⟨hleft, hright, hfirst⟩ (ih hlefts hrights hothers)

namespace Alike

theorem eq_anon_iff (halike : Alike names others left right) : left = .anon ↔ right = .anon := by
  rw [← @named_eq_anon_iff names, ← @named_eq_anon_iff others, halike.named_eq]

/-- Arguments that are printed alike one by one are printed alike as lists. -/
theorem map_chars_eq {marked : Bool} {lefts rights : List Term}
    (halike : List.Forall₂ (Alike names others) lefts rights)
    (hchars : ∀ left ∈ lefts, ∀ {right}, Alike names others left right →
      left.chars names marked = right.chars others marked) :
    lefts.map (chars names marked) = rights.map (chars others marked) := by
  induction halike with
  | nil => rfl
  | cons hfirst _ ih =>
      obtain ⟨hhead, htail⟩ := List.forall_mem_cons.mp hchars
      rw [List.map_cons, List.map_cons, hhead hfirst, ih htail]

/-- Terms that are alike have one text. -/
theorem chars_eq (halike : Alike names others left right) (marked : Bool) :
    left.chars names marked = right.chars others marked := by
  induction left using Term.induction generalizing right with
  | var index type =>
      obtain ⟨other, rfl, hname⟩ := named_eq_var_iff.mp halike.named_eq.symm
      have hleft := isListed_var.mp halike.left_listed
      have hright := isListed_var.mp halike.right_listed
      simp only [chars, variableName_of_lt hleft, variableName_of_lt hright, hname]
  | anon =>
      obtain rfl := halike.eq_anon_iff.mp rfl
      rfl
  | const name type =>
      obtain rfl := named_eq_const_iff.mp halike.named_eq.symm
      rfl
  | expr functor args ih =>
      obtain ⟨arguments, rfl, hnamed⟩ := named_eq_expr_iff.mp halike.named_eq.symm
      rw [namedEach_eq_map] at hnamed
      have hargs := map_chars_eq (forall₂_alike (.of_mem halike.left_listed)
        (.of_mem halike.right_listed) hnamed.symm) ih
      simp only [chars, charsOfEach_eq_map, hargs]
  | atom predicate args ih =>
      obtain ⟨arguments, rfl, hnamed⟩ := named_eq_atom_iff.mp halike.named_eq.symm
      rw [namedEach_eq_map] at hnamed
      have hargs := forall₂_alike (.of_mem halike.left_listed) (.of_mem halike.right_listed)
        hnamed.symm
      cases hargs with
      | nil => rfl
      | @cons oid other operands _ hoid hoperands =>
          obtain ⟨hoidChars, hchars⟩ := List.forall_mem_cons.mp ih
          simp only [chars_atom, map_chars_eq hoperands hchars, hoidChars hoid, hoid.eq_anon_iff]

theorem bare_eq (halike : Alike names others left right) : left.bare names = right.bare others :=
  congrArg String.ofList (halike.chars_eq false)

/-- Terms that are alike are one operand. -/
theorem operand_eq (halike : Alike names others left right) :
    left.operand names = right.operand others := by
  have hbare := halike.bare_eq
  cases left with
  | var index type =>
      obtain ⟨other, rfl, hname⟩ := named_eq_var_iff.mp halike.named_eq.symm
      rw [operand_var_of_lt (isListed_var.mp halike.left_listed),
        operand_var_of_lt (isListed_var.mp halike.right_listed), hname]
  | anon =>
      obtain rfl := halike.eq_anon_iff.mp rfl
      rfl
  | const name type =>
      obtain rfl := named_eq_const_iff.mp halike.named_eq.symm
      rfl
  | expr functor args =>
      obtain ⟨arguments, rfl, -⟩ := named_eq_expr_iff.mp halike.named_eq.symm
      exact congrArg Operand.literal hbare
  | atom predicate args =>
      obtain ⟨arguments, rfl, -⟩ := named_eq_atom_iff.mp halike.named_eq.symm
      exact congrArg Operand.literal hbare

end Alike

end

end Term

/-! ## Requests -/

/-- Alike operands are the same classes, as an anonymous one stands beside another such. -/
theorem classTexts_eq_of_alike {names others : List String} {lefts rights : List Term}
    (halike : List.Forall₂ (Term.Alike names others) lefts rights) :
    classTexts names lefts = classTexts others rights := by
  induction halike with
  | nil => rfl
  | @cons left right lefts rights hfirst _ ih =>
      rw [classTexts, classTexts] at ih ⊢
      by_cases hanonymous : left = .anon
      · rw [List.filter_cons_of_neg (by simpa using hanonymous),
          List.filter_cons_of_neg (by simpa using hfirst.eq_anon_iff.mp hanonymous), ih]
      · have hother := hfirst.eq_anon_iff.not.mp hanonymous
        rw [List.filter_cons_of_pos (by simpa using hanonymous),
          List.filter_cons_of_pos (by simpa using hother), List.map_cons, List.map_cons, ih,
          hfirst.bare_eq]

namespace QueryAtom

/-- The arguments without the slot of the object identifier. -/
def operands (query : QueryAtom) : List Term := query.args.drop 1

def namedOperands (query : QueryAtom) : List NamedTerm :=
  query.operands.map (Term.named query.variableNames)

def IsListed (query : QueryAtom) : Prop :=
  ∀ operand ∈ query.operands, operand.IsListed query.variableNames

theorem args_eq_nil_or (query : QueryAtom) :
    query.args = [] ∨ ∃ oid, query.args = oid :: query.operands := by
  rw [operands]
  cases query.args with
  | nil => exact .inl rfl
  | cons oid operands => exact .inr ⟨oid, rfl⟩

theorem exists_args_eq_cons {query : QueryAtom} {first : Term} {rest : List Term}
    (hoperands : query.operands = first :: rest) : ∃ oid, query.args = oid :: first :: rest := by
  rcases query.args_eq_nil_or with hnil | ⟨oid, hargs⟩
  · rw [operands, hnil] at hoperands
    exact absurd hoperands (by simp)
  · exact ⟨oid, by rw [hargs, hoperands]⟩

section

variable {query : QueryAtom}

theorem subsumption_of_operands (hfamily : query.predicate.family = .subsumption)
    (hlength : query.operands.length ≠ 2) :
    query.subsumption =
      .error (.arityMismatch query.predicate .exactlyTwo query.operands.length) := by
  rcases query.args_eq_nil_or with hnil | ⟨oid, hargs⟩
  · simp only [subsumption, hfamily, hnil, arity, operands]
    rfl
  · exact subsumption_of_length hfamily hargs hlength

theorem bound_of_operands_nil (hfamily : query.predicate.family = .bound)
    (hoperands : query.operands = []) :
    query.bound = .error (.arityMismatch query.predicate .atLeastOne 0) := by
  rcases query.args_eq_nil_or with hnil | ⟨oid, hargs⟩
  · simp only [bound, hfamily, hnil, arity]
    rfl
  · exact bound_of_nil hfamily (hargs.trans (by rw [hoperands]))

end

variable {left right : QueryAtom}

/-- Alike operands stand for one class, or give one error. -/
theorem classRef_eq_of_alike (hpredicate : left.predicate = right.predicate)
    {leftTerm rightTerm : Term}
    (halike : Term.Alike left.variableNames right.variableNames leftTerm rightTerm) :
    left.classRef leftTerm = right.classRef rightTerm := by
  rw [classRef, classRef, halike.operand_eq, hpredicate]

section

variable (hpredicate : left.predicate = right.predicate)
  (halike : List.Forall₂ (Term.Alike left.variableNames right.variableNames)
    left.operands right.operands)

include hpredicate halike

/-- Two operands on each side that are alike are decided alike, and any other number of them
is an error that tells it. -/
theorem subsumption_eq_of_alike (hfamily : left.predicate.family = .subsumption) :
    left.subsumption = right.subsumption := by
  have hother : right.predicate.family = .subsumption := hpredicate ▸ hfamily
  by_cases hlength : left.operands.length = 2
  · obtain ⟨superTerm, subTerm, hleft⟩ := List.length_eq_two.mp hlength
    obtain ⟨otherSuper, otherSub, hright⟩ := List.length_eq_two.mp (halike.length_eq ▸ hlength)
    obtain ⟨oid, hargs⟩ := exists_args_eq_cons hleft
    obtain ⟨otherOid, hotherArgs⟩ := exists_args_eq_cons hright
    rw [hleft, hright] at halike
    obtain ⟨hsuper, hsub, -⟩ := by simpa only [List.forall₂_cons] using halike
    rw [subsumption_eq hfamily hargs, subsumption_eq hother hotherArgs,
      classRef_eq_of_alike hpredicate hsuper, classRef_eq_of_alike hpredicate hsub]
  · rw [subsumption_of_operands hfamily hlength,
      subsumption_of_operands hother (halike.length_eq ▸ hlength), hpredicate, halike.length_eq]

theorem bound_eq_of_alike (hfamily : left.predicate.family = .bound) :
    left.bound = right.bound := by
  have hother : right.predicate.family = .bound := hpredicate ▸ hfamily
  cases hleft : left.operands with
  | nil =>
      rw [hleft, List.forall₂_nil_left_iff] at halike
      rw [bound_of_operands_nil hfamily hleft, bound_of_operands_nil hother halike, hpredicate]
  | cons first rest =>
      rw [hleft, List.forall₂_cons_left_iff] at halike
      obtain ⟨otherFirst, otherRest, hfirst, hrest, hright⟩ := halike
      obtain ⟨oid, hargs⟩ := exists_args_eq_cons hleft
      obtain ⟨otherOid, hotherArgs⟩ := exists_args_eq_cons hright
      rw [bound_eq hfamily hargs, bound_eq hother hotherArgs, hfirst.operand_eq,
        classTexts_eq_of_alike hrest, classTexts_eq_of_alike (.cons hfirst hrest)]

/-- The decision looks at nothing of the operands but what alike ones have in common. -/
theorem decompose_eq_of_alike : left.decompose = right.decompose := by
  rw [decompose, decompose, ← hpredicate]
  cases hleft : left.predicate with
  | lub | glb => simp only [bound_eq_of_alike hpredicate halike (by rw [hleft]; rfl)]
  | subsumes | subsumesPlus =>
      simp only [subsumption_eq_of_alike hpredicate halike (by rw [hleft]; rfl)]

end

end QueryAtom

/-! ## Atoms as written -/

namespace SourceTerm

variable {names others : List String}

theorem getD_idxOf {name : String} (hname : name ∈ names) :
    names.getD (names.idxOf name) "" = name := by
  rw [List.getD_eq_getElem?_getD, List.getElem?_idxOf hname, Option.getD_some]

/-- The induction is on the term, as for `variableIndices_resolve`. -/
theorem named_resolve_eq : (term : SourceTerm) → (∀ name ∈ term.variableNames, name ∈ names) →
    (∀ name ∈ term.variableNames, name ∈ others) →
    (term.resolve names).named names = (term.resolve others).named others
  | .var name type, hnames, hothers => by
      have hname : name ∈ (SourceTerm.var name type).variableNames := by simp [variableNames]
      simp only [resolve, Term.named, getD_idxOf (hnames name hname),
        getD_idxOf (hothers name hname)]
  | .anon, _, _ | .const .., _, _ => rfl
  | .expr functor args, hnames, hothers => by
      have hargs : args.map (fun arg => (arg.resolve names).named names) =
          args.map fun arg => (arg.resolve others).named others := by
        apply List.map_congr_left
        intro arg hmem
        have hsub : ∀ name ∈ arg.variableNames,
            name ∈ (SourceTerm.expr functor args).variableNames := by
          intro name hname
          rw [variableNames, variableNamesOfEach_eq_flatMap]
          exact List.mem_flatMap_of_mem hmem hname
        exact named_resolve_eq arg (fun name hname => hnames name (hsub name hname))
          fun name hname => hothers name (hsub name hname)
      simpa [resolve, Term.named] using hargs

/-- Resolving by a table that has all names of a term leaves no variable out of the
table. -/
theorem isListed_resolve {term : SourceTerm} (hnames : ∀ name ∈ term.variableNames, name ∈ names) :
    (term.resolve names).IsListed names := by
  intro index hindex
  rw [variableIndices_resolve] at hindex
  obtain ⟨name, hname, rfl⟩ := List.mem_map.mp hindex
  exact List.idxOf_lt_length_of_mem (hnames name hname)

end SourceTerm

namespace QueryAtom

/-- The query that an atom as written asks, if its name calls the predicate. -/
def ofSource (predicate : TypePredicate) (atom : SourceAtom) : QueryAtom :=
  let names := atom.variableNames.eraseDups
  { predicate
    args := (atom.oid.map (·.resolve names)).getD .anon :: atom.args.map (·.resolve names)
    variableNames := names }

theorem operands_ofSource (predicate : TypePredicate) (atom : SourceAtom) :
    (ofSource predicate atom).operands =
      atom.args.map (·.resolve (ofSource predicate atom).variableNames) := rfl

theorem mem_variableNames_ofSource {predicate : TypePredicate} {atom : SourceAtom}
    {arg : SourceTerm} (harg : arg ∈ atom.args) {name : String} (hname : name ∈ arg.variableNames) :
    name ∈ (ofSource predicate atom).variableNames :=
  List.mem_eraseDups.mpr
    (List.mem_flatMap_of_mem (List.mem_append_right atom.oid.toList harg) hname)

/-- The names among the operands are in the table whatever the object identifier brings in. -/
theorem alike_ofSource (predicate : TypePredicate) {left right : SourceAtom}
    (hargs : left.args = right.args) :
    List.Forall₂ (Term.Alike (ofSource predicate left).variableNames
        (ofSource predicate right).variableNames)
      (ofSource predicate left).operands (ofSource predicate right).operands := by
  rw [operands_ofSource, operands_ofSource, ← hargs, List.forall₂_map_left_iff,
    List.forall₂_map_right_iff, List.forall₂_same]
  intro arg harg
  have hleft := fun name => @mem_variableNames_ofSource predicate left arg harg name
  have hright := fun name => @mem_variableNames_ofSource predicate right arg (hargs ▸ harg) name
  exact ⟨SourceTerm.isListed_resolve hleft, SourceTerm.isListed_resolve hright,
    arg.named_resolve_eq hleft hright⟩

end QueryAtom

namespace TypeQuery

/-- A text that is read as one atom is decided by the atom as it was written. -/
theorem parse_of_source {atom : SourceAtom} {text : String}
    (hread : Clause.parseQuery text = .ok (.ofSource [atom])) :
    parse text =
      match TypePredicate.ofSymbol? atom.predicate with
      | some predicate => (QueryAtom.ofSource predicate atom).decompose
      | none => .error (.unsupportedPredicate atom.predicate) := by
  have hnames : [atom].flatMap SourceAtom.variableNames = atom.variableNames :=
    List.flatMap_singleton ..
  rw [parse, QueryAtom.parse, hread, Clause.ofSource, hnames]
  simp only [QueryAtom.ofClause, List.map_cons, List.map_nil, SourceAtom.resolve]
  cases TypePredicate.ofSymbol? atom.predicate <;> rfl

end TypeQuery

namespace QueryAtom

/-- What a query is decomposed into hangs on its predicate and on the names in its operands,
and on nothing else.  So an object identifier may be written, changed or left out, and the
request stays the same. -/
theorem decompose_by_names :
    (∀ {left right : QueryAtom}, left.predicate = right.predicate → left.IsListed →
      right.IsListed → left.namedOperands = right.namedOperands →
      left.decompose = right.decompose) ∧
    (∀ {predicate : String} {oid other : Option SourceTerm} {args : List SourceTerm}
      {text changed : String},
      Clause.parseQuery text = .ok (.ofSource [{ predicate, oid, args }]) →
      Clause.parseQuery changed = .ok (.ofSource [{ predicate, oid := other, args }]) →
      TypeQuery.parse text = TypeQuery.parse changed) := by
  constructor
  · intro left right hpredicate hleft hright hnamed
    exact decompose_eq_of_alike hpredicate (Term.forall₂_alike hleft hright hnamed)
  · intro predicate oid other args text changed htext hchanged
    rw [TypeQuery.parse_of_source htext, TypeQuery.parse_of_source hchanged]
    cases TypePredicate.ofSymbol? predicate with
    | none => rfl
    | some found => exact decompose_eq_of_alike rfl (alike_ofSource found rfl)

/-- The first query has an object identifier with a variable of its own and an unused name in
its table, the second has neither; the texts differ in an identifier that reuses a variable. -/
theorem decompose_by_names_renumbered :
    (let left : QueryAtom :=
      { predicate := .glb
        args := [.expr "o" [.var 0 none], .var 1 (some "T"), .expr "f" [.var 3 none, .anon],
          .atom "p" [.var 1 none, .const "a b" none]]
        variableNames := ["Id", "X", "Z", "Y"] }
    let right : QueryAtom :=
      { predicate := .glb
        args := [.anon, .var 0 (some "T"), .expr "f" [.var 1 none, .anon],
          .atom "p" [.var 0 none, .const "a b" none]]
        variableNames := ["X", "Y"] }
    left.decompose = right.decompose ∧ right.decompose = .ok (.glb
      { resultVariable := some "X", classes := ["f(Y, _)", "p(X^\"a b\")"] })) ∧
    TypeQuery.parse "subsumes(g(?Y)^?X, f(?Y))" = TypeQuery.parse "subsumes(?X, f(?Y))" := by
  obtain ⟨hqueries, htexts⟩ := decompose_by_names
  refine ⟨⟨hqueries rfl ?_ ?_ rfl, by decide +kernel⟩, ?_⟩
  · simp [IsListed, operands, Term.IsListed, Term.variableIndices]
  · simp [IsListed, operands, Term.IsListed, Term.variableIndices]
  · let args : List SourceTerm := [.var "X" none, .expr "f" [.var "Y" none]]
    let oid : SourceTerm := .expr "g" [.var "Y" none]
    have htext : Clause.parseQuery "subsumes(g(?Y)^?X, f(?Y))" =
        .ok (.ofSource [{ predicate := "subsumes", oid := some oid, args }]) := by decide +kernel
    have hchanged : Clause.parseQuery "subsumes(?X, f(?Y))" =
        .ok (.ofSource [{ predicate := "subsumes", oid := none, args }]) := by decide +kernel
    exact htexts htext hchanged

end QueryAtom

end Posl
