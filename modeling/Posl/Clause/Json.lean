import Posl.Clause
import Posl.Json.Record

/-!
# Terms and clauses in JSON

A term is a record whose tag `kind` tells which fields it has.  A type is left
out where there is none, and may be null when it is read.  Fields that a term
does not have are passed over.
-/

namespace Posl

namespace Term

def typeField : Option String → List (String × Json)
  | none => []
  | some type => [("ty", .string type)]

mutual

def toJson : Term → Json
  | .var index type => .object ([("kind", .string "var"), ("index", .integer index)] ++ typeField type)
  | .anon => .object [("kind", .string "anon")]
  | .const name type => .object ([("kind", .string "const"), ("name", .string name)] ++ typeField type)
  | .expr functor args =>
    .object [("kind", .string "expr"), ("functor", .string functor), ("args", .array (toJsonEach args))]
  | .atom predicate args =>
    .object [("kind", .string "atom"), ("predicate", .string predicate),
      ("args", .array (toJsonEach args))]

def toJsonEach : List Term → List Json
  | [] => []
  | term :: terms => toJson term :: toJsonEach terms

end

inductive Kind where
  | var
  | anon
  | const
  | expr
  | atom
  deriving DecidableEq, Repr

namespace Kind

def byName : List (String × Kind) :=
  [("var", .var), ("anon", .anon), ("const", .const), ("expr", .expr), ("atom", .atom)]

def fieldNames : Kind → List String
  | .var => ["index", "ty"]
  | .anon => []
  | .const => ["name", "ty"]
  | .expr => ["functor", "args"]
  | .atom => ["predicate", "args"]

end Kind

/-- The term of a kind, given its record and what its arguments are read as. -/
def ofRecord? (kind : Kind) (json : Json) (args : Option (List Term)) : Option Term :=
  match kind with
  | .var => do return .var (← (← json.get? "index").index?) (← json.optionalString? "ty")
  | .anon => some .anon
  | .const => do return .const (← (← json.get? "name").string?) (← json.optionalString? "ty")
  | .expr => do return .expr (← (← json.get? "functor").string?) (← args)
  | .atom => do return .atom (← (← json.get? "predicate").string?) (← args)

mutual

/-- The term that a value writes, which is nested if it stands inside another
term. -/
def ofJsonAt? (nested : Bool) : Json → Option Term
  | .object fields => do
    let kind ← (← fields.lookup "kind").pick? Kind.byName nested
    ofRecord? kind (.object fields) (argumentsOf? fields)
  | .array (tag :: items) => do
    let kind ← tag.pick? Kind.byName nested
    ofRecord? kind (← (Json.array items).record? kind.fieldNames) (argumentsAt? items)
  | _ => none

/-- The terms in the field `args` of an object. -/
def argumentsOf? : List (String × Json) → Option (List Term)
  | [] => none
  | (key, value) :: fields => if key = "args" then ofArray? true value else argumentsOf? fields

/-- The terms in an array's second field, which `args` is in a term that has it. -/
def argumentsAt? : List Json → Option (List Term)
  | _ :: value :: _ => ofArray? true value
  | _ => none

def ofArray? (nested : Bool) : Json → Option (List Term)
  | .array items => ofEach? nested items
  | _ => none

def ofEach? (nested : Bool) : List Json → Option (List Term)
  | [] => some []
  | item :: items => do return (← ofJsonAt? nested item) :: (← ofEach? nested items)

end

def ofJson? (json : Json) : Option Term := ofJsonAt? false json

def listOfJson? (json : Json) : Option (List Term) := ofArray? false json

@[simp] theorem toJsonEach_eq_map (terms : List Term) : toJsonEach terms = terms.map toJson := by
  induction terms with
  | nil => rfl
  | cons term terms ih => simp [toJsonEach, ih]

end Term

namespace Clause

def toJson (clause : Clause) : Json :=
  .object [("atoms", .array (clause.atoms.map Term.toJson)),
    ("variable_names", .ofStrings clause.variableNames)]

def ofJson? (json : Json) : Option Clause := do
  let record ← json.record? ["atoms", "variable_names"]
  return {
    atoms := ← Term.listOfJson? (← record.get? "atoms")
    variableNames := ← (← record.get? "variable_names").strings? }

end Clause

end Posl
