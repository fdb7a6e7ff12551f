import Std.Data.HashMap

/-!
# Symbol tables

Names of predicates and functions, numbered in the order in which they are
interned.
-/

namespace Posl

abbrev SymbolId := UInt32

structure SymbolTable where
  idOfName : Std.HashMap String SymbolId
  nameOfId : Std.HashMap SymbolId String
  /-- The code of the next new name.  Codes start over when all are used up. -/
  nextId : SymbolId

namespace SymbolTable

def empty : SymbolTable := { idOfName := ∅, nameOfId := ∅, nextId := 0 }

instance : EmptyCollection SymbolTable := ⟨empty⟩

instance : Inhabited SymbolTable := ⟨empty⟩

def id? (table : SymbolTable) (name : String) : Option SymbolId := table.idOfName[name]?

def name? (table : SymbolTable) (id : SymbolId) : Option String := table.nameOfId[id]?

def size (table : SymbolTable) : Nat := table.idOfName.size

def isEmpty (table : SymbolTable) : Bool := table.idOfName.isEmpty

/-- The code of a name, which keeps the one it has and takes the next one
otherwise. -/
def intern (table : SymbolTable) (name : String) : SymbolId × SymbolTable :=
  match table.id? name with
  | some id => (id, table)
  | none =>
    (table.nextId,
      { idOfName := table.idOfName.insert name table.nextId
        nameOfId := table.nameOfId.insert table.nextId name
        nextId := table.nextId + 1 })

/-- Forgets all names, so that codes start over. -/
def reset (table : SymbolTable) : SymbolTable :=
  { table with idOfName := ∅, nameOfId := ∅, nextId := 0 }

end SymbolTable

def SymbolId.text (id : SymbolId) : String := "#" ++ toString id

end Posl
