import Posl.Registry

/-!
# Sessions

A symbol table and a registry that are worked on side by side.  Either can be
started over without the other: codes that a registry has kept from an earlier
table stay as they are.
-/

namespace Posl

inductive AdapterSource where
  | unconfigured
  | standard (builtin : StandardBuiltin)
  | custom (name : String) (answer? : Term → Option Clause)

namespace AdapterSource

def name : AdapterSource → String
  | .unconfigured => ""
  | .standard builtin => builtin.name
  | .custom name _ => name

/-- The adapter, and the table with the name of its predicate interned. -/
def make (table : SymbolTable) : AdapterSource → Adapter × SymbolTable
  | .unconfigured => ({ builtin? := none }, table)
  | .standard builtin =>
    let (builtin, table) := Builtin.standard table builtin
    ({ builtin? := some builtin }, table)
  | .custom name answer? =>
    let (builtin, table) := Builtin.make table name answer?
    ({ builtin? := some builtin }, table)

end AdapterSource

structure Session where
  table : SymbolTable
  registry : Registry

namespace Session

def empty : Session := { table := ∅, registry := ∅ }

instance : EmptyCollection Session := ⟨empty⟩

instance : Inhabited Session := ⟨empty⟩

def intern (session : Session) (name : String) : SymbolId × Session :=
  let (id, table) := session.table.intern name
  (id, { session with table })

/-- Starts the table over and leaves the registry as it is. -/
def resetTable (session : Session) : Session := { session with table := session.table.reset }

/-- Starts the registry over and leaves the table as it is. -/
def clearRegistry (session : Session) : Session := { session with registry := ∅ }

/-- Starts over with a registry of the standard built-ins, under the codes that
their names have in the table. -/
def useStandard (session : Session) : Session :=
  let (registry, table) := Registry.standard session.table
  { table, registry }

def makeAdapter (session : Session) (source : AdapterSource) : Adapter × Session :=
  let (adapter, table) := source.make session.table
  (adapter, { session with table })

/-- Makes an adapter and registers it.  The name stays interned even where
registering fails. -/
def register (session : Session) (source : AdapterSource) :
    Except BuiltinError (Option Builtin) × Session :=
  let (adapter, session) := session.makeAdapter source
  match session.registry.register adapter with
  | .ok (replaced, registry) => (.ok replaced, { session with registry })
  | .error error => (.error error, session)

def call (session : Session) (clause : Clause) (index : Nat) : Except BuiltinError CallResult :=
  session.registry.call session.table clause index

def deriveFacts (session : Session) (clause : Clause) : List Clause :=
  session.registry.deriveFacts session.table clause

end Session

end Posl
