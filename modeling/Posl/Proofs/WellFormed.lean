import Mathlib.Data.List.Forall2
import Posl.Source
import Posl.Lexeme

/-!
# Well-formed clauses

The clauses that have a writing: atoms with an object identifier's slot, names
that are identifiers, and variables numbered by first occurrence.  Such a clause
is the one that its own atoms give when they are written with names.
-/

namespace Posl

/-! ## Lists -/

/-- What is made of items one by one. -/
theorem mapM_eq_some_iff {α β : Type} {f : β → Option α} {values : List α} {items : List β} :
    items.mapM f = some values ↔
      List.Forall₂ (fun value item => f item = some value) values items := by
  induction items generalizing values with
  | nil => simp [eq_comm]
  | cons item items ih =>
      simp only [List.mapM_cons, Option.bind_eq_bind, Option.bind_eq_some_iff, ih,
        List.forall₂_cons_right_iff]
      constructor
      · rintro ⟨value, hvalue, others, hothers, hvalues⟩
        exact ⟨value, others, hvalue, hothers, (Option.some.inj hvalues).symm⟩
      · rintro ⟨value, others, hvalue, hothers, rfl⟩
        exact ⟨value, hvalue, others, hothers, rfl⟩

/-- A separator stands before all pieces but the first. -/
theorem intercalate_cons {α : Type} (separator first : List α) (others : List (List α)) :
    separator.intercalate (first :: others) = first ++ others.flatMap (separator ++ ·) := by
  induction others generalizing first with
  | nil => simp
  | cons next others ih => simp [List.intercalate_cons_cons, ih]

theorem forall_mem_intercalate {α : Type} {holds : α → Prop} {separator : List α}
    {pieces : List (List α)} (hseparator : ∀ x ∈ separator, holds x)
    (hpieces : ∀ piece ∈ pieces, ∀ x ∈ piece, holds x) :
    ∀ x ∈ separator.intercalate pieces, holds x := by
  cases pieces with
  | nil => simp
  | cons first others =>
      obtain ⟨hfirst, hothers⟩ := List.forall_mem_cons.mp hpieces
      rw [intercalate_cons]
      simp only [List.forall_mem_append, List.forall_mem_flatMap]
      exact ⟨hfirst, fun piece hmem => ⟨hseparator, hothers piece hmem⟩⟩

/-- Keeping first occurrences commutes with a renaming that keeps the values
apart. -/
theorem eraseDups_map_of_injective {α β : Type} [DecidableEq α] [DecidableEq β] (f : α → β)
    (values : List α) (hinjective : ∀ x ∈ values, ∀ y ∈ values, f x = f y → x = y) :
    (values.map f).eraseDups = values.eraseDups.map f := by
  match values with
  | [] => rfl
  | first :: others =>
      have hfilter : (others.map f).filter (fun value => !value == f first) =
          (others.filter fun value => !value == first).map f := by
        rw [List.filter_map]
        congr 1
        apply List.filter_congr
        intro value hmem
        have heq : f value = f first ↔ value = first := by
          constructor
          · exact hinjective value (by simp [hmem]) first (by simp)
          · exact congrArg f
        simp [Bool.beq_eq_decide_eq, heq]
      have hothers : ∀ x ∈ others.filter (fun value => !value == first),
          ∀ y ∈ others.filter (fun value => !value == first), f x = f y → x = y := by
        intro x hx y hy
        exact hinjective x (List.mem_cons_of_mem _ (List.mem_filter.mp hx).1)
          y (List.mem_cons_of_mem _ (List.mem_filter.mp hy).1)
      rw [List.map_cons, List.eraseDups_cons, List.eraseDups_cons, List.map_cons, hfilter,
        eraseDups_map_of_injective f _ hothers]
termination_by values.length
decreasing_by exact Nat.lt_succ_of_le (List.length_filter_le _ _)

/-! ## Terms that can be written -/

namespace Term

/-- Induction on a term with a hypothesis for each of its arguments. -/
@[elab_as_elim]
theorem induction {motive : Term → Prop} (var : ∀ index type, motive (.var index type))
    (anon : motive .anon) (const : ∀ name type, motive (.const name type))
    (expr : ∀ functor args, (∀ arg ∈ args, motive arg) → motive (.expr functor args))
    (atom : ∀ predicate args, (∀ arg ∈ args, motive arg) → motive (.atom predicate args)) :
    ∀ term, motive term
  | .var index type => var index type
  | .anon => anon
  | .const name type => const name type
  | .expr functor args =>
    expr functor args fun arg _ => induction var anon const expr atom arg
  | .atom predicate args =>
    atom predicate args fun arg _ => induction var anon const expr atom arg

mutual

/-- The indices of a term's variables, in the order they stand in it. -/
def variableIndices : Term → List Nat
  | .var index _ => [index]
  | .anon | .const .. => []
  | .expr _ args | .atom _ args => variableIndicesOfEach args

def variableIndicesOfEach : List Term → List Nat
  | [] => []
  | term :: terms => variableIndices term ++ variableIndicesOfEach terms

end

@[simp]
theorem variableIndicesOfEach_eq_flatMap (terms : List Term) :
    variableIndicesOfEach terms = terms.flatMap variableIndices := by
  induction terms with
  | nil => rfl
  | cons term terms ih => simp [variableIndicesOfEach, ih]

def IsType (type : Option String) : Prop := ∀ name ∈ type, Lexeme.isIdentifier name.toList

/-- A term that may stand in an atom: there is no atom in it, and what is not the
text of a constant is an identifier. -/
inductive IsArgument : Term → Prop
  | var {index type} : IsType type → IsArgument (.var index type)
  | anon : IsArgument .anon
  | const {name type} : IsType type → IsArgument (.const name type)
  | expr {functor args} : Lexeme.isIdentifier functor.toList → functor ≠ "_" →
      (∀ arg ∈ args, IsArgument arg) → IsArgument (.expr functor args)

/-- An atom with the slot of its object identifier. -/
inductive IsAtom : Term → Prop
  | intro {predicate oid operands} : Lexeme.isIdentifier predicate.toList → IsArgument oid →
      (∀ operand ∈ operands, IsArgument operand) → IsAtom (.atom predicate (oid :: operands))

mutual

/-- A term with its variables given by name.  Atoms have no place in it. -/
def toSource (names : List String) : Term → SourceTerm
  | .var index type => .var (names.getD index "") type
  | .anon | .atom .. => .anon
  | .const name type => .const name type
  | .expr functor args => .expr functor (toSourceEach names args)

def toSourceEach (names : List String) : List Term → List SourceTerm
  | [] => []
  | term :: terms => toSource names term :: toSourceEach names terms

end

@[simp]
theorem toSourceEach_eq_map (names : List String) (terms : List Term) :
    toSourceEach names terms = terms.map (toSource names) := by
  induction terms with
  | nil => rfl
  | cons term terms ih => simp [toSourceEach, ih]

/-- The object identifier of an atom, unless its slot is anonymous. -/
def writtenOid? (term : Term) : Option Term := term.subTerms.head?.filter (· ≠ .anon)

def toSourceAtom (names : List String) (term : Term) : SourceAtom where
  predicate := term.symbolName?.getD ""
  oid := term.writtenOid?.map (toSource names)
  args := term.operands.map (toSource names)

section

variable {names : List String}

theorem flatMap_variableNames_toSource {terms : List Term}
    (hterms : ∀ term ∈ terms, (term.toSource names).variableNames =
      term.variableIndices.map fun index => names.getD index "") :
    (terms.map (toSource names)).flatMap SourceTerm.variableNames =
      (terms.flatMap variableIndices).map fun index => names.getD index "" := by
  rw [List.flatMap_map, List.map_flatMap, List.flatMap_def, List.flatMap_def,
    List.map_congr_left hterms]

/-- With its variables by name, a term names them in the order in which their indices stand
in it. -/
theorem IsArgument.variableNames_toSource {term : Term} (hterm : term.IsArgument) :
    (term.toSource names).variableNames =
      term.variableIndices.map fun index => names.getD index "" := by
  induction hterm with
  | var _ => rfl
  | anon => rfl
  | const _ => rfl
  | expr _ _ _ ih =>
      simp only [toSource, SourceTerm.variableNames, variableIndices, toSourceEach_eq_map,
        SourceTerm.variableNamesOfEach_eq_flatMap, variableIndicesOfEach_eq_flatMap]
      exact flatMap_variableNames_toSource ih

theorem map_resolve_toSource {terms : List Term}
    (hterms : ∀ term ∈ terms, (term.toSource names).resolve names = term) :
    (terms.map (toSource names)).map (SourceTerm.resolve names) = terms := by
  rw [List.map_map]
  calc
    terms.map (SourceTerm.resolve names ∘ toSource names) = terms.map id :=
      List.map_congr_left hterms
    _ = terms := List.map_id terms

/-- The names of a table without repetition give the indices back. -/
theorem IsArgument.resolve_toSource (hnames : names.Nodup) {term : Term}
    (hterm : term.IsArgument) (hindices : ∀ index ∈ term.variableIndices, index < names.length) :
    (term.toSource names).resolve names = term := by
  induction hterm with
  | @var index type _ =>
      have hindex : index < names.length := hindices index (by simp [variableIndices])
      simp [toSource, SourceTerm.resolve, hindex, hnames.idxOf_getElem]
  | anon => rfl
  | const _ => rfl
  | @expr functor args _ _ _ ih =>
      have hargs : ∀ arg ∈ args, (arg.toSource names).resolve names = arg := by
        intro arg hmem
        apply ih arg hmem
        intro index hindex
        apply hindices
        simp only [variableIndices, variableIndicesOfEach_eq_flatMap]
        exact List.mem_flatMap_of_mem hmem hindex
      simp only [toSource, SourceTerm.resolve, toSourceEach_eq_map, SourceTerm.resolveEach_eq_map,
        map_resolve_toSource hargs]

@[simp]
theorem writtenOid?_atom (predicate : String) (oid : Term) (operands : List Term) :
    (atom predicate (oid :: operands)).writtenOid? = if oid = .anon then none else some oid := by
  by_cases hoid : oid = .anon <;> simp [writtenOid?, subTerms, hoid]

theorem IsAtom.variableNames_toSourceAtom {term : Term} (hatom : term.IsAtom) :
    (term.toSourceAtom names).variableNames =
      term.variableIndices.map fun index => names.getD index "" := by
  cases hatom with
  | @intro predicate oid operands _ hoid hoperands =>
      have hargs := @flatMap_variableNames_toSource names operands fun operand hmem =>
        (hoperands operand hmem).variableNames_toSource
      by_cases hanon : oid = .anon
      · simp [SourceAtom.variableNames, SourceAtom.terms, toSourceAtom, Term.operands,
          variableIndices, hanon, hargs]
      · simp [SourceAtom.variableNames, SourceAtom.terms, toSourceAtom, Term.operands,
          variableIndices, hanon, hargs, hoid.variableNames_toSource]

/-- Resolved by the table that its names are from, an atom is itself again, and an anonymous
slot is one again. -/
theorem IsAtom.resolve_toSourceAtom (hnames : names.Nodup) {term : Term} (hatom : term.IsAtom)
    (hindices : ∀ index ∈ term.variableIndices, index < names.length) :
    (term.toSourceAtom names).resolve names = term := by
  cases hatom with
  | @intro predicate oid operands _ hoid hoperands =>
      simp only [variableIndices, variableIndicesOfEach_eq_flatMap, List.flatMap_cons,
        List.mem_append] at hindices
      have hresolved : (oid.toSource names).resolve names = oid :=
        hoid.resolve_toSource hnames fun index hindex => hindices index (.inl hindex)
      have hargs := map_resolve_toSource fun operand hmem =>
        (hoperands operand hmem).resolve_toSource hnames fun index hindex =>
          hindices index (.inr (List.mem_flatMap_of_mem hmem hindex))
      by_cases hanon : oid = .anon
      · simp [toSourceAtom, SourceAtom.resolve, symbolName?, Term.operands, hanon, hargs]
      · simp [toSourceAtom, SourceAtom.resolve, symbolName?, Term.operands, hanon, hargs, hresolved]

end

end Term

/-! ## Clauses -/

namespace Clause

/-- A clause that has a writing.  The last condition is on the indices as they
stand in the clause, each at its first occurrence only. -/
structure WellFormed (clause : Clause) : Prop where
  atoms_ne_nil : clause.atoms ≠ []
  isAtom : ∀ atom ∈ clause.atoms, atom.IsAtom
  names_nodup : clause.variableNames.Nodup
  isIdentifier : ∀ name ∈ clause.variableNames, Lexeme.isIdentifier name.toList
  numbered : (clause.atoms.flatMap Term.variableIndices).eraseDups =
    List.range clause.variableNames.length

def toSource (clause : Clause) : List SourceAtom :=
  clause.atoms.map (·.toSourceAtom clause.variableNames)

namespace WellFormed

variable {clause : Clause}

/-- Each index of a well-formed clause has a name in the table. -/
theorem lt_length (hclause : clause.WellFormed) {atom : Term} (hmem : atom ∈ clause.atoms)
    {index : Nat} (hindex : index ∈ atom.variableIndices) :
    index < clause.variableNames.length := by
  have hany : index ∈ clause.atoms.flatMap Term.variableIndices :=
    List.mem_flatMap_of_mem hmem hindex
  rw [← List.mem_eraseDups, hclause.numbered] at hany
  exact List.mem_range.mp hany

/-- Read with names, the variables give the table again. -/
theorem names_toSource (hclause : clause.WellFormed) :
    (clause.toSource.flatMap SourceAtom.variableNames).eraseDups = clause.variableNames := by
  have hatoms : clause.toSource.flatMap SourceAtom.variableNames =
      (clause.atoms.flatMap Term.variableIndices).map
        fun index => clause.variableNames.getD index "" := by
    rw [toSource, List.flatMap_map, List.map_flatMap, List.flatMap_def, List.flatMap_def,
      List.map_congr_left fun atom hmem => (hclause.isAtom atom hmem).variableNames_toSourceAtom]
  have hlt : ∀ index ∈ clause.atoms.flatMap Term.variableIndices,
      index < clause.variableNames.length := by
    intro index hmem
    obtain ⟨atom, hatom, hindex⟩ := List.mem_flatMap.mp hmem
    exact hclause.lt_length hatom hindex
  have hinjective : ∀ i ∈ clause.atoms.flatMap Term.variableIndices,
      ∀ j ∈ clause.atoms.flatMap Term.variableIndices,
      clause.variableNames.getD i "" = clause.variableNames.getD j "" → i = j := by
    intro i hi j hj hname
    exact (List.getD_inj (hlt i hi) (hlt j hj) hclause.names_nodup).mp hname
  rw [hatoms, eraseDups_map_of_injective _ _ hinjective, hclause.numbered]
  apply List.ext_getElem
  · simp
  · intro index hleft hright
    simp [hright]

/-- A well-formed clause is what its writing stands for. -/
theorem ofSource_toSource (hclause : clause.WellFormed) :
    Clause.ofSource clause.toSource = clause := by
  have hatoms : clause.toSource.map (·.resolve clause.variableNames) = clause.atoms := by
    rw [toSource, List.map_map]
    calc
      clause.atoms.map _ = clause.atoms.map id := by
        apply List.map_congr_left
        intro atom hmem
        exact (hclause.isAtom atom hmem).resolve_toSourceAtom hclause.names_nodup
          fun index hindex => hclause.lt_length hmem hindex
      _ = clause.atoms := List.map_id _
  rw [Clause.ofSource, hclause.names_toSource, hatoms]

end WellFormed

end Clause

end Posl
