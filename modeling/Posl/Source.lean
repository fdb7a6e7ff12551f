import Posl.Clause

/-!
# Clauses as written

Terms and atoms as they stand in a text, with their variables' names.  Resolving
the names of one clause gives its variables numbers in the order of their first
occurrence.
-/

namespace Posl

inductive SourceTerm where
  | var (name : String) (type : Option String)
  | anon
  | const (name : String) (type : Option String)
  | expr (functor : String) (args : List SourceTerm)
  deriving Repr, Inhabited

structure SourceAtom where
  predicate : String
  /-- The object identifier, where one is written. -/
  oid : Option SourceTerm
  args : List SourceTerm
  deriving Repr, Inhabited

namespace SourceTerm

mutual

/-- The names of a term's variables, in the order written. -/
def variableNames : SourceTerm → List String
  | .var name _ => [name]
  | .anon | .const .. => []
  | .expr _ args => variableNamesOfEach args

def variableNamesOfEach : List SourceTerm → List String
  | [] => []
  | term :: terms => variableNames term ++ variableNamesOfEach terms

end

mutual

/-- The term with each variable given by its place in the table. -/
def resolve (names : List String) : SourceTerm → Term
  | .var name type => .var (names.idxOf name) type
  | .anon => .anon
  | .const name type => .const name type
  | .expr functor args => .expr functor (resolveEach names args)

def resolveEach (names : List String) : List SourceTerm → List Term
  | [] => []
  | term :: terms => resolve names term :: resolveEach names terms

end

@[simp] theorem variableNamesOfEach_eq_flatMap (terms : List SourceTerm) :
    variableNamesOfEach terms = terms.flatMap variableNames := by
  induction terms with
  | nil => rfl
  | cons term terms ih => simp [variableNamesOfEach, ih]

@[simp] theorem resolveEach_eq_map (names : List String) (terms : List SourceTerm) :
    resolveEach names terms = terms.map (resolve names) := by
  induction terms with
  | nil => rfl
  | cons term terms ih => simp [resolveEach, ih]

end SourceTerm

namespace SourceAtom

/-- The terms written in an atom, the object identifier first. -/
def terms (atom : SourceAtom) : List SourceTerm := atom.oid.toList ++ atom.args

def variableNames (atom : SourceAtom) : List String := atom.terms.flatMap SourceTerm.variableNames

/-- An object identifier that is not written leaves its slot anonymous. -/
def resolve (names : List String) (atom : SourceAtom) : Term :=
  .atom atom.predicate
    ((atom.oid.map (·.resolve names)).getD .anon :: atom.args.map (·.resolve names))

end SourceAtom

/-- The clause that a list of atoms writes.  Equal names are one variable
throughout the clause, and a name keeps the place of its first occurrence. -/
def Clause.ofSource (atoms : List SourceAtom) : Clause :=
  let names := (atoms.flatMap SourceAtom.variableNames).eraseDups
  { atoms := atoms.map (·.resolve names), variableNames := names }

end Posl
