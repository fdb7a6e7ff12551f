import Posl.Term.Text

/-!
# Clauses

A fact `head.` or a rule `head :- body.`, with the table of its variables.
A query is held in the same way: all of its atoms in the order written.
-/

namespace Posl

structure Clause where
  atoms : List Term
  /-- The variables by index, in the order of their first occurrence. -/
  variableNames : List String
  deriving DecidableEq, Repr, Inhabited

namespace Clause

def isFact (clause : Clause) : Bool := clause.atoms.length == 1

def head? (clause : Clause) : Option Term := clause.atoms.head?

def body (clause : Clause) : List Term := clause.atoms.drop 1

def atomText? (clause : Clause) (index : Nat) : Option String :=
  clause.atoms[index]?.map (·.marked clause.variableNames)

/-- The characters of a clause's text: a clause without atoms is a lone
period. -/
def chars (clause : Clause) : List Char :=
  match clause.atoms.map (·.chars clause.variableNames true) with
  | [] => ['.']
  | [head] => head ++ ['.']
  | head :: body => head ++ [' ', ':', '-', ' '] ++ Term.commaSeparated body ++ ['.']

def text (clause : Clause) : String := .ofList clause.chars

end Clause

end Posl
