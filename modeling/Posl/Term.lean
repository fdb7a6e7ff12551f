/-!
# Terms

A term is a variable, a constant, a nested expression or an atom.  Variables
carry no names: an index points into the variable table of the clause that owns
the term, so whatever shows a name takes that table as an argument.
-/

namespace Posl

inductive Term where
  /-- A named variable, given by its index in the clause's variable table. -/
  | var (index : Nat) (type : Option String)
  /-- A variable that nothing else can refer to. -/
  | anon
  /-- An individual, a number or a string, given by its text. -/
  | const (name : String) (type : Option String)
  /-- A function applied to arguments. -/
  | expr (functor : String) (args : List Term)
  /-- A predicate call.  The first argument is the slot of the object
  identifier, the others are the operands. -/
  | atom (predicate : String) (args : List Term)
  deriving Repr, Inhabited

/-- What a term is when it stands as an operand. -/
inductive Operand where
  | anonymous
  | variable (name : String)
  | literal (text : String)
  deriving DecidableEq, Repr

namespace Term

mutual

def decEq : (left right : Term) → Decidable (left = right)
  | .var i t, .var j u =>
    if h : i = j ∧ t = u then isTrue (by rw [h.1, h.2]) else isFalse (by simpa using h)
  | .anon, .anon => isTrue rfl
  | .const n t, .const m u =>
    if h : n = m ∧ t = u then isTrue (by rw [h.1, h.2]) else isFalse (by simpa using h)
  | .expr f xs, .expr g ys =>
    if h : f = g then
      match decEqList xs ys with
      | isTrue e => isTrue (by rw [h, e])
      | isFalse e => isFalse (by simp [e])
    else isFalse (by simp [h])
  | .atom p xs, .atom q ys =>
    if h : p = q then
      match decEqList xs ys with
      | isTrue e => isTrue (by rw [h, e])
      | isFalse e => isFalse (by simp [e])
    else isFalse (by simp [h])
  | .var .., .anon | .var .., .const .. | .var .., .expr .. | .var .., .atom ..
  | .anon, .var .. | .anon, .const .. | .anon, .expr .. | .anon, .atom ..
  | .const .., .var .. | .const .., .anon | .const .., .expr .. | .const .., .atom ..
  | .expr .., .var .. | .expr .., .anon | .expr .., .const .. | .expr .., .atom ..
  | .atom .., .var .. | .atom .., .anon | .atom .., .const .. | .atom .., .expr .. =>
    isFalse (by simp)

def decEqList : (left right : List Term) → Decidable (left = right)
  | [], [] => isTrue rfl
  | [], _ :: _ | _ :: _, [] => isFalse (by simp)
  | x :: xs, y :: ys =>
    match decEq x y, decEqList xs ys with
    | isTrue h, isTrue e => isTrue (by rw [h, e])
    | isFalse h, _ => isFalse (by simp [h])
    | _, isFalse e => isFalse (by simp [e])

end

instance : DecidableEq Term := decEq

/-- A predicate call without an object identifier: the slot is anonymous. -/
def call (predicate : String) (operands : List Term) : Term :=
  .atom predicate (.anon :: operands)

/-- The name by which a term can be looked up: a constant's text, a functor or
a predicate.  Variables have none. -/
def symbolName? : Term → Option String
  | .const name _ => some name
  | .expr functor _ => some functor
  | .atom predicate _ => some predicate
  | .var .. | .anon => none

def typeName? : Term → Option String
  | .var _ type | .const _ type => type
  | .anon | .expr .. | .atom .. => none

/-- All arguments, the object identifier's slot included. -/
def subTerms : Term → List Term
  | .expr _ args | .atom _ args => args
  | .var .. | .anon | .const .. => []

/-- The positional arguments, the object identifier's slot left out. -/
def operands : Term → List Term
  | .expr _ args => args
  | .atom _ args => args.drop 1
  | .var .. | .anon | .const .. => []

mutual

/-- A term is ground when no argument at any depth is a variable.  An anonymous
object identifier counts as one. -/
def isGround : Term → Bool
  | .var .. | .anon => false
  | .const .. => true
  | .expr _ args | .atom _ args => allGround args

def allGround : List Term → Bool
  | [] => true
  | term :: terms => isGround term && allGround terms

end

@[simp] theorem allGround_eq_all (terms : List Term) : allGround terms = terms.all isGround := by
  induction terms with
  | nil => rfl
  | cons term terms ih => simp [allGround, ih]

@[simp] theorem operands_call (predicate : String) (operands : List Term) :
    (call predicate operands).operands = operands := rfl

end Term

end Posl
