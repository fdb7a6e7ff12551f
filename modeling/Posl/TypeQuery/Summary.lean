import Posl.TypeQuery

/-!
# Requests on one line
-/

namespace Posl

namespace ClassRef

/-- A class as a query writes it, with the mark of a variable. -/
def text : ClassRef → String
  | .variable name => "?" ++ name
  | .literal name => name

end ClassRef

namespace BoundQuery

def summary (query : BoundQuery) : String :=
  let result := (query.resultVariable.map ("?" ++ ·)).getD "unused"
  s!"result: {result}, classes: [" ++ ", ".intercalate query.classes ++ "]"

end BoundQuery

namespace SubsumptionQuery

def summary (query : SubsumptionQuery) : String :=
  s!"super: {query.superType.text}, sub: {query.subType.text}"

end SubsumptionQuery

namespace TypeQuery

/-- The summary of a request: its predicate with the parts of the request in
parentheses. -/
def summary (query : TypeQuery) : String :=
  let parts :=
    match query with
    | .lub bound | .glb bound => bound.summary
    | .subsumes relation | .subsumesPlus relation => relation.summary
  s!"{query.predicate.name}({parts})"

end TypeQuery

end Posl
