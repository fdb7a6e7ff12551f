import Posl.Clause
import Posl.SymbolTable

/-!
# Built-ins

A built-in answers the calls of one predicate.  An adapter holds a built-in, or
none yet.
-/

namespace Posl

structure Builtin where
  /-- The predicate that the built-in was made for. -/
  name : String
  /-- The code that the predicate had at the time. -/
  symbol : SymbolId
  /-- The fact that a call asserts, if the call holds. -/
  answer? : Term → Option Clause

inductive BuiltinError where
  | unconfigured
  | unconfiguredRegistration
  | indexOutOfRange (index atoms : Nat)
  deriving DecidableEq, Repr

namespace BuiltinError

def message : BuiltinError → String
  | .unconfigured => "built-in adapter has no built-in configured"
  | .unconfiguredRegistration => "cannot register an unconfigured built-in adapter"
  | .indexOutOfRange index atoms =>
    s!"atom index {index} out of range for clause with {atoms} atoms"

end BuiltinError

namespace Clause

def atomAt (clause : Clause) (index : Nat) : Except BuiltinError Term :=
  match clause.atoms[index]? with
  | some atom => .ok atom
  | none => .error (.indexOutOfRange index clause.atoms.length)

end Clause

structure Adapter where
  builtin? : Option Builtin

namespace Adapter

def isConfigured (adapter : Adapter) : Bool := adapter.builtin?.isSome

def builtin (adapter : Adapter) : Except BuiltinError Builtin :=
  match adapter.builtin? with
  | some builtin => .ok builtin
  | none => .error .unconfigured

def symbol (adapter : Adapter) : Except BuiltinError SymbolId :=
  adapter.builtin.map (·.symbol)

/-- What the built-in says about an atom of a clause: the fact, or nothing when
the call fails. -/
def answer? (adapter : Adapter) (clause : Clause) (index : Nat) :
    Except BuiltinError (Option Clause) := do
  let builtin ← adapter.builtin
  return builtin.answer? (← clause.atomAt index)

/-- The adapter as it is shown to developers. -/
def text (adapter : Adapter) : String :=
  match adapter.builtin? with
  | some builtin => s!"BuBuiltin \x7b symbol: SymbolId({builtin.symbol}) \x7d"
  | none => "BuBuiltin(unconfigured)"

end Adapter

end Posl
