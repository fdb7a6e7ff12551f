import Posl.Parse
import Posl.TypePredicate

/-!
# Type queries

A query about a lattice of classes: the atom that asks it, the request that the
atom decomposes into, and what can be wrong with it.
-/

namespace Posl

/-- The atom of a type query, checked for its predicate but not for its
operands. -/
structure QueryAtom where
  predicate : TypePredicate
  /-- All arguments, the slot of the object identifier first. -/
  args : List Term
  variableNames : List String
  deriving DecidableEq, Repr

/-- An operand that stands for a class: a variable to bind, or the class's own
name. -/
inductive ClassRef where
  | variable (name : String)
  | literal (name : String)
  deriving DecidableEq, Repr

structure SubsumptionQuery where
  superType : ClassRef
  subType : ClassRef
  deriving DecidableEq, Repr

structure BoundQuery where
  /-- The variable that receives the bound, if the query names one. -/
  resultVariable : Option String
  classes : List String
  deriving DecidableEq, Repr

/-- What a lattice is asked. -/
inductive TypeQuery where
  | lub (query : BoundQuery)
  | glb (query : BoundQuery)
  | subsumes (query : SubsumptionQuery)
  | subsumesPlus (query : SubsumptionQuery)
  deriving DecidableEq, Repr

inductive Arity where
  | exactlyTwo
  | atLeastOne
  deriving DecidableEq, Repr

inductive TypeQueryError where
  | malformedText (error : SyntaxError)
  /-- A query has one atom, neither more nor none. -/
  | notOneAtom (atoms : Nat)
  | unsupportedPredicate (symbol : String)
  | arityMismatch (predicate : TypePredicate) (expected : Arity) (found : Nat)
  | anonymousOperand (predicate : TypePredicate)
  | duplicateVariable (name : String)
  /-- The query was taken for one of the other family. -/
  | predicateMismatch (expected : PredicateFamily) (found : TypePredicate)
  deriving DecidableEq, Repr

namespace Arity

def text : Arity → String
  | .exactlyTwo => "2"
  | .atLeastOne => "at least 1"

end Arity

namespace TypeQueryError

def message : TypeQueryError → String
  | .malformedText error => error.message
  | .notOneAtom atoms => s!"rules cannot be used for type queries (query has {atoms} atoms)"
  | .unsupportedPredicate symbol =>
    s!"unsupported predicate `{symbol}`: only lub, glb, subsumes, and subsumesPlus are valid"
  | .arityMismatch predicate expected found =>
    s!"{predicate.name} must have {expected.text} arguments, found {found}"
  | .anonymousOperand predicate => s!"anonymous operands are not allowed in {predicate.name}"
  | .duplicateVariable name =>
    s!"cannot have duplicate variable names in subsumes or subsumesPlus: `?{name}`"
  | .predicateMismatch expected found =>
    s!"a {found.name} query cannot be decomposed as {expected.text}"

end TypeQueryError

namespace ClassRef

def name : ClassRef → String
  | .variable name | .literal name => name

def isVariable : ClassRef → Bool
  | .variable _ => true
  | .literal _ => false

end ClassRef

namespace TypeQuery

def predicate : TypeQuery → TypePredicate
  | .lub _ => .lub
  | .glb _ => .glb
  | .subsumes _ => .subsumes
  | .subsumesPlus _ => .subsumesPlus

end TypeQuery

namespace QueryAtom

/-- The one atom of a clause, if it calls one of the four predicates. -/
def ofClause (clause : Clause) : Except TypeQueryError QueryAtom :=
  match clause.atoms with
  | [.atom symbol args] =>
    match TypePredicate.ofSymbol? symbol with
    | some predicate => .ok { predicate, args, variableNames := clause.variableNames }
    | none => .error (.unsupportedPredicate symbol)
  | [term] => .error (.unsupportedPredicate (term.marked clause.variableNames))
  | atoms => .error (.notOneAtom atoms.length)

def parse (text : String) : Except TypeQueryError QueryAtom :=
  match Clause.parseQuery text with
  | .ok clause => ofClause clause
  | .error error => .error (.malformedText error)

/-- The number of operands.  The object identifier is none. -/
def arity (query : QueryAtom) : Nat := query.args.length - 1

def classRef (query : QueryAtom) (term : Term) : Except TypeQueryError ClassRef :=
  match term.operand query.variableNames with
  | .anonymous => .error (.anonymousOperand query.predicate)
  | .variable name => .ok (.variable name)
  | .literal text => .ok (.literal text)

/-- The superclass and the subclass, in this order.  Both may be variables, but
then not one and the same, whatever the case of its letters. -/
def subsumption (query : QueryAtom) : Except TypeQueryError SubsumptionQuery := do
  unless query.predicate.family = .subsumption do
    throw (.predicateMismatch .subsumption query.predicate)
  match query.args with
  | [_, superTerm, subTerm] =>
    let superType ← query.classRef superTerm
    let subType ← query.classRef subTerm
    if superType.isVariable && subType.isVariable &&
        equalIgnoringCase superType.name subType.name then
      throw (.duplicateVariable superType.name)
    return { superType, subType }
  | _ => throw (.arityMismatch query.predicate .exactlyTwo query.arity)

/-- The names of the classes among operands: a wildcard names none. -/
def classesOf (query : QueryAtom) (operands : List Term) : List String :=
  (operands.filter (· ≠ .anon)).map (·.bare query.variableNames)

/-- A variable in front receives the result, and an anonymous one gives it up.
All other operands are classes. -/
def bound (query : QueryAtom) : Except TypeQueryError BoundQuery := do
  unless query.predicate.family = .bound do
    throw (.predicateMismatch .bound query.predicate)
  match query.args.drop 1 with
  | [] => throw (.arityMismatch query.predicate .atLeastOne query.arity)
  | first :: rest =>
    match first.operand query.variableNames with
    | .variable name => return { resultVariable := some name, classes := query.classesOf rest }
    | .anonymous => return { resultVariable := none, classes := query.classesOf rest }
    | .literal _ => return { resultVariable := none, classes := query.classesOf (first :: rest) }

/-- The request that a query makes, by the family of its predicate. -/
def decompose (query : QueryAtom) : Except TypeQueryError TypeQuery :=
  match query.predicate with
  | .lub => query.bound.map .lub
  | .glb => query.bound.map .glb
  | .subsumes => query.subsumption.map .subsumes
  | .subsumesPlus => query.subsumption.map .subsumesPlus

end QueryAtom

namespace TypeQuery

/-- The request that a line of text makes. -/
def parse (text : String) : Except TypeQueryError TypeQuery :=
  QueryAtom.parse text >>= QueryAtom.decompose

end TypeQuery

end Posl
