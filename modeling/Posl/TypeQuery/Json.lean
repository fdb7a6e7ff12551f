import Posl.Clause.Json
import Posl.TypeQuery

/-!
# Type queries in JSON

A request is a record whose tag `predicate` tells which fields it has.  The two
classes of a subsumption stand inside that record.
-/

namespace Posl

namespace TypePredicate

def toJson (predicate : TypePredicate) : Json := .string predicate.name

def ofJson? (json : Json) : Option TypePredicate := json.caseName? false >>= ofName?

end TypePredicate

namespace ClassRef

def kind : ClassRef → String
  | .variable _ => "variable"
  | .literal _ => "class"

def toJson (ref : ClassRef) : Json :=
  .object [("kind", .string ref.kind), ("name", .string ref.name)]

def byKind : List (String × (String → ClassRef)) :=
  [("variable", .variable), ("class", .literal)]

/-- The class that a value writes, which is nested if it stands inside a
request. -/
def ofJsonAt? (nested : Bool) : Json → Option ClassRef
  | .object fields => do
    let make ← byKind.lookup (← (← fields.lookup "kind").caseName? nested)
    return make (← (← fields.lookup "name").string?)
  | .array [tag, name] => do return (← tag.pick? byKind nested) (← name.string?)
  | _ => none

def ofJson? (json : Json) : Option ClassRef := ofJsonAt? false json

end ClassRef

namespace BoundQuery

def fields (query : BoundQuery) : List (String × Json) :=
  [("result_var", .ofString? query.resultVariable), ("class_names", .ofStrings query.classes)]

def ofJson? (json : Json) : Option BoundQuery := do
  let record ← json.record? ["result_var", "class_names"]
  return {
    resultVariable := ← record.optionalString? "result_var"
    classes := ← (← record.get? "class_names").strings? }

end BoundQuery

namespace SubsumptionQuery

def fields (query : SubsumptionQuery) : List (String × Json) :=
  [("super_type", query.superType.toJson), ("sub_type", query.subType.toJson)]

def ofJson? (json : Json) : Option SubsumptionQuery := do
  let record ← json.record? ["super_type", "sub_type"]
  return {
    superType := ← ClassRef.ofJsonAt? true (← record.get? "super_type")
    subType := ← ClassRef.ofJsonAt? true (← record.get? "sub_type") }

end SubsumptionQuery

namespace TypeQuery

def fields : TypeQuery → List (String × Json)
  | .lub query | .glb query => query.fields
  | .subsumes query | .subsumesPlus query => query.fields

def toJson (query : TypeQuery) : Json :=
  .object (("predicate", query.predicate.toJson) :: query.fields)

def ofJson? (json : Json) : Option TypeQuery := do
  let (tag, record) ← json.untag? "predicate"
  match ← TypePredicate.ofName? (← tag.string?) with
  | .lub => return .lub (← BoundQuery.ofJson? record)
  | .glb => return .glb (← BoundQuery.ofJson? record)
  | .subsumes => return .subsumes (← SubsumptionQuery.ofJson? record)
  | .subsumesPlus => return .subsumesPlus (← SubsumptionQuery.ofJson? record)

end TypeQuery

namespace QueryAtom

def toJson (query : QueryAtom) : Json :=
  .object [("predicate", query.predicate.toJson),
    ("operands", .array (query.args.map Term.toJson)),
    ("variable_names", .ofStrings query.variableNames)]

def ofJson? (json : Json) : Option QueryAtom := do
  let record ← json.record? ["predicate", "operands", "variable_names"]
  return {
    predicate := ← TypePredicate.ofJson? (← record.get? "predicate")
    args := ← Term.listOfJson? (← record.get? "operands")
    variableNames := ← (← record.get? "variable_names").strings? }

end QueryAtom

end Posl
