/-!
# Predicates of type queries

The four predicates over a lattice of classes.  Two ask for a bound of several
classes, two whether one class lies above another.
-/

namespace Posl

inductive TypePredicate where
  /-- The least upper bound of a set of classes. -/
  | lub
  /-- The greatest lower bound of a set of classes. -/
  | glb
  /-- The direct subclass relation. -/
  | subsumes
  /-- The transitive closure of `subsumes`. -/
  | subsumesPlus
  deriving DecidableEq, Repr

/-- Predicates of one family have the same operands. -/
inductive PredicateFamily where
  | bound
  | subsumption
  deriving DecidableEq, Repr

/-- A text with its ASCII letters in lower case, and all else as it is. -/
def foldCase (text : String) : List Char := text.toList.map Char.toLower

/-- Equality of texts but for the case of ASCII letters. -/
def equalIgnoringCase (left right : String) : Bool := foldCase left == foldCase right

namespace TypePredicate

def all : List TypePredicate := [.lub, .glb, .subsumes, .subsumesPlus]

def name : TypePredicate → String
  | .lub => "lub"
  | .glb => "glb"
  | .subsumes => "subsumes"
  | .subsumesPlus => "subsumesPlus"

def family : TypePredicate → PredicateFamily
  | .lub | .glb => .bound
  | .subsumes | .subsumesPlus => .subsumption

/-- The predicate that a name calls, in whatever case it is written. -/
def ofSymbol? (symbol : String) : Option TypePredicate :=
  all.find? fun predicate => equalIgnoringCase predicate.name symbol

/-- The predicate with exactly this name. -/
def ofName? (name : String) : Option TypePredicate :=
  all.find? fun predicate => predicate.name == name

end TypePredicate

namespace PredicateFamily

def text : PredicateFamily → String
  | .bound => "lub or glb"
  | .subsumption => "subsumes or subsumesPlus"

end PredicateFamily

end Posl
