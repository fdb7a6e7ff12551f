import Posl.Json

/-!
# Records in JSON

A record is an object, or an array of its fields' values in their order.  A
tagged record has a tag besides its fields, which tells its case; in an array the
tag comes first.

Tags are read more freely in values that stand inside a tagged record.  A flag
`nested` tells of that.
-/

namespace Posl.Json

/-- A record as an object.  An array may leave out the last fields. -/
def record? (fieldNames : List String) : Json → Option Json
  | .object fields => some (.object fields)
  | .array items =>
    if items.length ≤ fieldNames.length then some (.object (fieldNames.zip items)) else none
  | _ => none

/-- The tag of a tagged record, and the record without it. -/
def untag? (key : String) : Json → Option (Json × Json)
  | .object fields => do return (← fields.lookup key, .object fields)
  | .array (tag :: items) => some (tag, .array items)
  | _ => none

/-- The case that a tag gives: by its name, or by its place among the cases if
the record is nested. -/
def pick? {α : Type} (cases : List (String × α)) (nested : Bool) : Json → Option α
  | .string name => cases.lookup name
  | .integer (.ofNat place) => if nested then cases[place]?.map (·.2) else none
  | _ => none

/-- Null is nothing, and so is an object without fields if it is nested. -/
def isNothing (nested : Bool) : Json → Bool
  | .null => true
  | .object [] => nested
  | _ => false

/-- The name of a case that has no fields.  It may be written as an object with
the name for its only key and nothing under it. -/
def caseName? (nested : Bool) : Json → Option String
  | .string name => some name
  | .object [(name, value)] => if value.isNothing nested then some name else none
  | _ => none

/-- The text in a field that may hold null or be missing.  Fails where the field
holds anything else. -/
def optionalString? (key : String) (json : Json) : Option (Option String) :=
  match json.get? key with
  | none | some .null => some none
  | some (.string value) => some (some value)
  | some _ => none

end Posl.Json
