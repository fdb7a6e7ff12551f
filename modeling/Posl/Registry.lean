import Std.Data.TreeMap
import Posl.Builtin.Standard

/-!
# Registries

The built-ins that calls are routed to, by the codes of their predicates.
-/

namespace Posl

inductive CallResult where
  /-- The predicate has no built-in and is to be solved in another way. -/
  | notBuiltin
  | fails
  | derives (fact : Clause)
  deriving DecidableEq, Repr

namespace CallResult

def facts : CallResult → List Clause
  | .notBuiltin | .fails => []
  | .derives fact => [fact]

end CallResult

structure Registry where
  builtins : Std.TreeMap SymbolId Builtin

namespace Registry

def empty : Registry := { builtins := ∅ }

instance : EmptyCollection Registry := ⟨empty⟩

instance : Inhabited Registry := ⟨empty⟩

def get? (registry : Registry) (id : SymbolId) : Option Builtin := registry.builtins[id]?

def contains (registry : Registry) (id : SymbolId) : Bool := registry.builtins.contains id

def size (registry : Registry) : Nat := registry.builtins.size

def isEmpty (registry : Registry) : Bool := registry.builtins.isEmpty

/-- The codes of the registered predicates in ascending order. -/
def symbols (registry : Registry) : List SymbolId := registry.builtins.keys

def insert (registry : Registry) (builtin : Builtin) : Registry :=
  { builtins := registry.builtins.insert builtin.symbol builtin }

/-- Registers the built-in of an adapter in place of the one that has its code,
which is handed back. -/
def register (registry : Registry) (adapter : Adapter) :
    Except BuiltinError (Option Builtin × Registry) :=
  match adapter.builtin? with
  | some builtin => .ok (registry.get? builtin.symbol, registry.insert builtin)
  | none => .error .unconfiguredRegistration

/-- A registry of the standard built-ins, and the table with their names
interned. -/
def standard (table : SymbolTable) : Registry × SymbolTable :=
  StandardBuiltin.all.foldl
    (fun (registry, table) builtin =>
      let (builtin, table) := Builtin.standard table builtin
      (registry.insert builtin, table))
    (∅, table)

/-- The built-in for an atom, which the code of the atom's name leads to. -/
def route? (registry : Registry) (table : SymbolTable) (atom : Term) : Option Builtin := do
  registry.get? (← table.id? (← atom.symbolName?))

def callAtom (registry : Registry) (table : SymbolTable) (atom : Term) : CallResult :=
  match registry.route? table atom with
  | none => .notBuiltin
  | some builtin =>
    match builtin.answer? atom with
    | none => .fails
    | some fact => .derives fact

def call (registry : Registry) (table : SymbolTable) (clause : Clause) (index : Nat) :
    Except BuiltinError CallResult :=
  (clause.atomAt index).map (registry.callAtom table)

/-- The facts that the calls in the body of a clause derive, in order. -/
def deriveFacts (registry : Registry) (table : SymbolTable) (clause : Clause) : List Clause :=
  clause.body.flatMap fun atom => (registry.callAtom table atom).facts

end Registry

end Posl
