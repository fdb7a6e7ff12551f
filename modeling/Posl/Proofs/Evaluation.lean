import Mathlib.Data.List.Basic
import Posl.Command.Run
import Posl.Proofs.Chronicle

/-!
# Evaluating clauses

A registry that keeps adapters as they were handed in would have to ask each for its built-in
when a call comes, and could fail then, or at an atom that is not there.  Neither happens: no
adapter without a built-in gets in, and the loop over the body of a clause keeps to its atoms.
So such a registry does what a registry of built-ins does, and the facts of a clause are
those of its calls, one after the other.
-/

namespace Posl

/-! ## Registries of adapters -/

/-- Adapters under the codes of their built-ins, kept as they were handed in. -/
structure AdapterRegistry where
  adapters : Std.TreeMap SymbolId Adapter

namespace AdapterRegistry

def empty : AdapterRegistry := { adapters := ∅ }

instance : EmptyCollection AdapterRegistry := ⟨empty⟩

def get? (registry : AdapterRegistry) (id : SymbolId) : Option Adapter := registry.adapters[id]?

def insert (registry : AdapterRegistry) (id : SymbolId) (adapter : Adapter) : AdapterRegistry :=
  { adapters := registry.adapters.insert id adapter }

/-- Puts an adapter under the code of its built-in, and hands back the one that was there. -/
def register (registry : AdapterRegistry) (adapter : Adapter) :
    Except BuiltinError (Option Adapter × AdapterRegistry) :=
  match adapter.symbol with
  | .ok id => .ok (registry.get? id, registry.insert id adapter)
  | .error _ => .error .unconfiguredRegistration

def route? (registry : AdapterRegistry) (table : SymbolTable) (atom : Term) : Option Adapter := do
  registry.get? (← table.id? (← atom.symbolName?))

/-- The facts of a call, or nothing where the atom is for no built-in. -/
def call (registry : AdapterRegistry) (table : SymbolTable) (clause : Clause) (index : Nat) :
    Except BuiltinError (Option (List Clause)) := do
  match registry.route? table (← clause.atomAt index) with
  | none => return none
  | some adapter => return some (← adapter.answer? clause index).toList

/-- Calls the atoms behind the head one after the other, up to the first error. -/
def deriveFacts (registry : AdapterRegistry) (table : SymbolTable) (clause : Clause) :
    Except BuiltinError (List Clause) :=
  (List.range' 1 (clause.atoms.length - 1)).foldlM (fun derived index => do
    return derived ++ ((← registry.call table clause index).getD [])) []

end AdapterRegistry

/-! ## Steps by which registries are made -/

inductive RegistryStep where
  | clear
  /-- Starts over with the standard built-ins, under the codes that a table gives them. -/
  | standard (table : SymbolTable)
  /-- Tries to register an adapter. -/
  | register (adapter : Adapter)

namespace Adapter

def ofBuiltin (builtin : Builtin) : Adapter := { builtin? := some builtin }

/-- An adapter with a built-in answers for one atom of a clause, and there is an error only
where the clause has no such atom. -/
theorem answer?_ofBuiltin (builtin : Builtin) (clause : Clause) (index : Nat) :
    (ofBuiltin builtin).answer? clause index = (clause.atomAt index).map builtin.answer? := by
  rw [answer?]
  cases clause.atomAt index <;> rfl

end Adapter

namespace Registry

/-- The registry after an attempt to register an adapter. -/
def attempt (registry : Registry) (adapter : Adapter) : Registry :=
  match registry.register adapter with
  | .ok (_, later) => later
  | .error _ => registry

def step (registry : Registry) : RegistryStep → Registry
  | .clear => ∅
  | .standard table => (standard table).1
  | .register adapter => registry.attempt adapter

def run (registry : Registry) (steps : List RegistryStep) : Registry := steps.foldl step registry

end Registry

namespace AdapterRegistry

def attempt (registry : AdapterRegistry) (adapter : Adapter) : AdapterRegistry :=
  match registry.register adapter with
  | .ok (_, later) => later
  | .error _ => registry

/-- Registers an adapter for each standard built-in, made for its name in turn. -/
def standard (table : SymbolTable) : AdapterRegistry :=
  ((StandardBuiltin.makeAll table StandardBuiltin.all).1.map Adapter.ofBuiltin).foldl attempt ∅

def step (registry : AdapterRegistry) : RegistryStep → AdapterRegistry
  | .clear => ∅
  | .standard table => standard table
  | .register adapter => registry.attempt adapter

def run (registry : AdapterRegistry) (steps : List RegistryStep) : AdapterRegistry :=
  steps.foldl step registry

end AdapterRegistry

/-! ## Agreement of the two registries -/

theorem Registry.attempt_of_some {registry : Registry} {adapter : Adapter} {builtin : Builtin}
    (hbuiltin : adapter.builtin? = some builtin) :
    registry.attempt adapter = registry.insert builtin := by
  simp only [attempt, register, hbuiltin]

theorem Registry.attempt_of_none {registry : Registry} {adapter : Adapter}
    (hbuiltin : adapter.builtin? = none) : registry.attempt adapter = registry := by
  simp only [attempt, register, hbuiltin]

namespace AdapterRegistry

theorem attempt_of_some {stored : AdapterRegistry} {adapter : Adapter} {builtin : Builtin}
    (hbuiltin : adapter.builtin? = some builtin) :
    stored.attempt adapter = stored.insert builtin.symbol (.ofBuiltin builtin) := by
  obtain ⟨found⟩ := adapter
  obtain rfl : found = some builtin := hbuiltin
  rfl

theorem attempt_of_none {stored : AdapterRegistry} {adapter : Adapter}
    (hbuiltin : adapter.builtin? = none) : stored.attempt adapter = stored := by
  obtain ⟨found⟩ := adapter
  obtain rfl : found = none := hbuiltin
  rfl

/-- An adapter is stored under the code that is given for it, and takes the place of another
one there. -/
theorem get?_insert (stored : AdapterRegistry) (id other : SymbolId) (adapter : Adapter) :
    (stored.insert id adapter).get? other =
      if id = other then some adapter else stored.get? other := by
  simp only [get?, insert, Std.TreeMap.getElem?_insert, Std.LawfulEqCmp.compare_eq_iff_eq]

/-- Whether the adapters are those of the built-ins of a registry.  None of them is without
a built-in then. -/
def Holds (stored : AdapterRegistry) (registry : Registry) : Prop :=
  ∀ id, stored.get? id = (registry.get? id).map Adapter.ofBuiltin

section

variable {stored : AdapterRegistry} {registry : Registry}

namespace Holds

theorem empty : Holds ∅ ∅ := by
  intro id
  rw [Registry.get?_empty, Option.map_none]
  exact Std.TreeMap.getElem?_emptyc

theorem insert (hholds : stored.Holds registry) (builtin : Builtin) :
    (stored.insert builtin.symbol (.ofBuiltin builtin)).Holds (registry.insert builtin) := by
  intro id
  rw [get?_insert, Registry.get?_insert, hholds id]
  split <;> rfl

/-- An adapter without a built-in changes nothing, and any other brings its built-in. -/
theorem attempt (hholds : stored.Holds registry) (adapter : Adapter) :
    (stored.attempt adapter).Holds (registry.attempt adapter) := by
  cases hbuiltin : adapter.builtin? with
  | none => rwa [attempt_of_none hbuiltin, Registry.attempt_of_none hbuiltin]
  | some builtin =>
      rw [attempt_of_some hbuiltin, Registry.attempt_of_some hbuiltin]
      exact hholds.insert builtin

theorem foldl (hholds : stored.Holds registry) (builtins : List Builtin) :
    ((builtins.map Adapter.ofBuiltin).foldl AdapterRegistry.attempt stored).Holds
      (builtins.foldl Registry.insert registry) := by
  induction builtins generalizing stored registry with
  | nil => exact hholds
  | cons builtin builtins ih =>
      have hinsert : registry.attempt (.ofBuiltin builtin) = registry.insert builtin :=
        Registry.attempt_of_some rfl
      exact ih (hinsert ▸ hholds.attempt (.ofBuiltin builtin))

/-- The standard adapters are those of the standard built-ins.  The built-ins themselves are
generalized, as they do not matter and are costly to unfold. -/
theorem standard (table : SymbolTable) :
    (AdapterRegistry.standard table).Holds (Registry.standard table).1 := by
  rw [AdapterRegistry.standard, StandardBuiltin.standard_eq]
  generalize StandardBuiltin.makeAll table StandardBuiltin.all = made
  exact empty.foldl made.1

/-- Each step that makes a registry does the same to its adapters. -/
theorem step (hholds : stored.Holds registry) (step : RegistryStep) :
    (stored.step step).Holds (registry.step step) := by
  cases step with
  | clear => exact empty
  | standard table => exact standard table
  | register adapter => exact hholds.attempt adapter

theorem run (hholds : stored.Holds registry) (steps : List RegistryStep) :
    (stored.run steps).Holds (registry.run steps) := by
  induction steps generalizing stored registry with
  | nil => exact hholds
  | cons step steps ih => exact ih (hholds.step step)

/-- What an atom leads to is the adapter of the built-in that it leads to. -/
theorem route?_eq (hholds : stored.Holds registry) (table : SymbolTable) (atom : Term) :
    stored.route? table atom = (registry.route? table atom).map Adapter.ofBuiltin := by
  rw [AdapterRegistry.route?, Registry.route?]
  cases atom.symbolName? with
  | none => rfl
  | some name =>
      cases hid : table.id? name with
      | none => simp [hid]
      | some id => simpa [hid] using hholds id

end Holds

end

/-- The facts of a call, none where there is no such call. -/
def factsAt (stored : AdapterRegistry) (table : SymbolTable) (clause : Clause) (index : Nat) :
    List Clause :=
  match stored.call table clause index with
  | .ok answers => answers.getD []
  | .error _ => []

theorem factsAt_of_ok {stored : AdapterRegistry} {table : SymbolTable} {clause : Clause}
    {index : Nat} {answers : Option (List Clause)}
    (hcall : stored.call table clause index = .ok answers) :
    stored.factsAt table clause index = answers.getD [] := by
  rw [factsAt, hcall]

end AdapterRegistry

/-! ## Calls -/

namespace CallResult

/-- The facts that a call hands over, or nothing where the atom is for no built-in. -/
def answers : CallResult → Option (List Clause)
  | .notBuiltin => none
  | .fails => some []
  | .derives fact => some [fact]

theorem getD_answers (result : CallResult) : result.answers.getD [] = result.facts := by
  cases result <;> rfl

theorem answers_ofAnswer (answer : Option Clause) :
    (ofAnswer answer).answers = some answer.toList := by
  cases answer <;> rfl

theorem length_facts_le (result : CallResult) : result.facts.length ≤ 1 := by
  cases result <;> simp [facts]

end CallResult

/-- A loop that collects lists collects all of them if none of its steps fails. -/
theorem foldlM_append_of_ok {α β ε : Type} {call : α → Except ε (Option (List β))}
    {facts : α → List β} {items : List α}
    (hok : ∀ item ∈ items, ∃ answers, call item = .ok answers ∧ facts item = answers.getD [])
    (collected : List β) :
    items.foldlM (fun collected item => do
      return collected ++ ((← call item).getD [])) collected =
        .ok (collected ++ items.flatMap facts) := by
  induction items generalizing collected with
  | nil => rw [List.flatMap_nil, List.append_nil]; rfl
  | cons item items ih =>
      obtain ⟨⟨answers, hcall, hfacts⟩, hothers⟩ := List.forall_mem_cons.mp hok
      rw [List.foldlM_cons, hcall, List.flatMap_cons, hfacts, ← List.append_assoc]
      exact ih hothers _

theorem Clause.atomAt_of_lt {clause : Clause} {index : Nat} (hindex : index < clause.atoms.length) :
    clause.atomAt index = .ok clause.atoms[index] := by
  rw [atomAt, List.getElem?_eq_getElem hindex]

/-- The atoms behind the head, by their places. -/
theorem Clause.map_getElem?_range' (clause : Clause) :
    (List.range' 1 (clause.atoms.length - 1)).map (clause.atoms[·]?) = clause.body.map some := by
  apply List.ext_getElem
  · simp [body]
  · intro place hplace hbody
    simp only [List.length_map, body, List.length_drop] at hbody
    have hatom : place + 1 < clause.atoms.length := by omega
    simp [body, Nat.add_comm 1 place, hatom]

namespace AdapterRegistry.Holds

variable {stored : AdapterRegistry} {registry : Registry} (hholds : stored.Holds registry)
  (table : SymbolTable)

include hholds

/-- A call comes to an error only where there is no atom, as it does without adapters. -/
theorem call_eq (clause : Clause) (index : Nat) :
    stored.call table clause index =
      (registry.call table clause index).map CallResult.answers := by
  rw [call, Registry.call]
  cases hatom : clause.atomAt index with
  | error error => rfl
  | ok atom =>
      cases hroute : registry.route? table atom with
      | none =>
          simp only [bind, Except.bind, hholds.route?_eq, hroute, Option.map_none, Except.map,
            Registry.callAtom_of_route?_none hroute]
          rfl
      | some builtin =>
          simp only [bind, Except.bind, hholds.route?_eq, hroute, Option.map_some, Except.map,
            Registry.callAtom_of_route?_some hroute, Adapter.answer?_ofBuiltin, hatom,
            CallResult.answers_ofAnswer]
          rfl

/-- Where there is an atom there is an answer. -/
theorem call_of_lt {clause : Clause} {index : Nat} (hindex : index < clause.atoms.length) :
    stored.call table clause index =
      .ok (registry.callAtom table clause.atoms[index]).answers := by
  rw [hholds.call_eq, Registry.call, Clause.atomAt_of_lt hindex]
  rfl

theorem factsAt_eq (clause : Clause) (index : Nat) :
    stored.factsAt table clause index =
      (clause.atoms[index]?).elim [] fun atom => (registry.callAtom table atom).facts := by
  by_cases hindex : index < clause.atoms.length
  · rw [factsAt_of_ok (hholds.call_of_lt table hindex), CallResult.getD_answers,
      List.getElem?_eq_getElem hindex, Option.elim_some]
  · have hnone : clause.atoms[index]? = none := List.getElem?_eq_none_iff.mpr (by omega)
    rw [factsAt, hholds.call_eq, Registry.call, Clause.atomAt, hnone]
    rfl

/-- The facts of the calls behind the head, one after the other, are those that a registry
of built-ins derives. -/
theorem flatMap_factsAt (clause : Clause) :
    (List.range' 1 (clause.atoms.length - 1)).flatMap (stored.factsAt table clause) =
      registry.deriveFacts table clause := by
  have hfacts : stored.factsAt table clause = fun index =>
      (clause.atoms[index]?).elim [] fun atom => (registry.callAtom table atom).facts :=
    funext (hholds.factsAt_eq table clause)
  rw [hfacts, Registry.deriveFacts]
  calc
    _ = ((List.range' 1 (clause.atoms.length - 1)).map (clause.atoms[·]?)).flatMap
          fun atom? => atom?.elim [] fun atom => (registry.callAtom table atom).facts :=
        (List.flatMap_map ..).symm
    _ = _ := by rw [clause.map_getElem?_range', List.flatMap_map]; rfl

/-- No call behind the head has an error, so none of them ends the derivation. -/
theorem deriveFacts_eq (clause : Clause) :
    stored.deriveFacts table clause = .ok
      ((List.range' 1 (clause.atoms.length - 1)).flatMap (stored.factsAt table clause)) := by
  rw [AdapterRegistry.deriveFacts, foldlM_append_of_ok, List.nil_append]
  intro index hmem
  obtain ⟨hone, hlast⟩ := List.mem_range'_1.mp hmem
  have hcall := hholds.call_of_lt table (show index < clause.atoms.length by omega)
  exact ⟨_, hcall, factsAt_of_ok hcall⟩

end AdapterRegistry.Holds

/-! ## Evaluation -/

/-- What it comes to that a registry of adapters evaluates clauses under a table. -/
structure AdapterRegistry.Evaluates (stored : AdapterRegistry) (registry : Registry)
    (table : SymbolTable) : Prop where
  /-- Its calls are those of a registry of built-ins. -/
  call_eq : ∀ clause index, stored.call table clause index =
    (registry.call table clause index).map CallResult.answers
  /-- No atom is called in vain, and none gives more than one fact. -/
  exists_call : ∀ (clause : Clause) (index : Nat), index < clause.atoms.length →
    ∃ answers, stored.call table clause index = .ok answers ∧ (answers.getD []).length ≤ 1
  /-- The facts of a clause are those of the calls behind its head, in order. -/
  deriveFacts_eq : ∀ clause, stored.deriveFacts table clause = .ok
    ((List.range' 1 (clause.atoms.length - 1)).flatMap (stored.factsAt table clause))
  /-- They are the facts that a registry of built-ins derives. -/
  deriveFacts_agree : ∀ clause,
    stored.deriveFacts table clause = .ok (registry.deriveFacts table clause)
  /-- The facts of two bodies together are those of each, whatever the heads and the names of
  the variables. -/
  deriveFacts_append : ∀ head other another names otherNames anotherNames first second,
    ∃ facts others,
      stored.deriveFacts table { atoms := other :: first, variableNames := otherNames } =
        .ok facts ∧
      stored.deriveFacts table { atoms := another :: second, variableNames := anotherNames } =
        .ok others ∧
      stored.deriveFacts table { atoms := head :: (first ++ second), variableNames := names } =
        .ok (facts ++ others)

/-- All that is said of evaluation follows from the agreement of the two registries. -/
theorem AdapterRegistry.Holds.evaluates {stored : AdapterRegistry} {registry : Registry}
    (hholds : stored.Holds registry) (table : SymbolTable) :
    stored.Evaluates registry table where
  call_eq := hholds.call_eq table
  exists_call := by
    intro clause index hindex
    refine ⟨_, hholds.call_of_lt table hindex, ?_⟩
    rw [CallResult.getD_answers]
    exact CallResult.length_facts_le _
  deriveFacts_eq := hholds.deriveFacts_eq table
  deriveFacts_agree := by
    intro clause
    rw [hholds.deriveFacts_eq, hholds.flatMap_factsAt]
  deriveFacts_append := by
    intro head other another names otherNames anotherNames first second
    simp only [hholds.deriveFacts_eq, hholds.flatMap_factsAt, Registry.deriveFacts, Clause.body]
    exact ⟨_, _, rfl, rfl, by simp⟩

/-! ## Calls of a query on the command line -/

/-- What is shown for a call: that it is for no built-in, that it fails, or its one fact. -/
inductive Shown (colored : Bool) : Option (List Clause) → String → Prop
  | notBuiltin : Shown colored none (Style.paint { color := .yellow } colored "not a built-in")
  | fails : Shown colored (some []) (Style.paint { color := .red } colored "fails")
  | fact {fact} : Shown colored (some [fact]) (Style.paint { color := .green } colored fact.text)

theorem shown_resultText (colored : Bool) (result : CallResult) :
    Shown colored result.answers (Command.resultText colored result) := by
  cases result with
  | notBuiltin => exact .notBuiltin
  | fails => exact .fails
  | derives fact => exact .fact

namespace Command

def callLine (environment : Environment) (clause : Clause) (atom : Term) : String :=
  let result := (Registry.standard ∅).1.callAtom (Registry.standard ∅).2 atom
  s!"{atom.marked clause.variableNames}: {resultText environment.colored result}\n"

/-- A line for each atom of a query, the head of a rule among them. -/
theorem run_builtin_of_ok {environment : Environment} {query : String} {clause : Clause}
    (hparse : Clause.parseQuery query = .ok clause) :
    run environment (.builtin query) =
      { status := 0
        output := String.join (clause.atoms.map (callLine environment clause))
        errorOutput := "" } := by
  rw [run, evaluate, hparse]
  rfl

theorem status_run_builtin_of_error {environment : Environment} {query : String}
    {error : SyntaxError} (hparse : Clause.parseQuery query = .error error) :
    (run environment (.builtin query)).status = 1 := by
  rw [run, evaluate, hparse]
  rfl

end Command

/-- Whatever was registered, clauses are evaluated without an error, and their facts are
those of the calls in their bodies.  A query on the command line succeeds if it can be read,
and shows for each of its atoms what the call of it comes to. -/
theorem AdapterRegistry.evaluates_every_call :
    (∀ steps table, (AdapterRegistry.run ∅ steps).Evaluates (Registry.run ∅ steps) table) ∧
    (∀ environment query,
      ((Command.run environment (.builtin query)).status = 0 ↔
        ∃ clause, Clause.parseQuery query = .ok clause) ∧
      ∀ clause, Clause.parseQuery query = .ok clause → ∃ lines : List String,
        Command.run environment (.builtin query) =
          { status := 0, output := String.join lines, errorOutput := "" } ∧
        lines.length = clause.atoms.length ∧
        ∀ index atom, clause.atoms[index]? = some atom → ∃ answers shown,
          (AdapterRegistry.standard ∅).call (Registry.standard ∅).2 clause index = .ok answers ∧
          Shown environment.colored answers shown ∧
          lines[index]? = some s!"{atom.marked clause.variableNames}: {shown}\n") := by
  refine ⟨fun steps table => (Holds.empty.run steps).evaluates table, fun environment query => ?_⟩
  constructor
  · cases hparse : Clause.parseQuery query with
    | error error => simp [Command.status_run_builtin_of_error hparse]
    | ok clause => simp [Command.run_builtin_of_ok hparse]
  · intro clause hparse
    refine ⟨_, Command.run_builtin_of_ok hparse, List.length_map .., fun index atom hatom => ?_⟩
    obtain ⟨hindex, rfl⟩ := List.getElem?_eq_some_iff.mp hatom
    refine ⟨_, _, (Holds.standard ∅).call_of_lt _ hindex, shown_resultText _ _, ?_⟩
    rw [List.getElem?_map, hatom, Option.map_some, Command.callLine]

/-- A rule with a sum that can be taken, an atom for no built-in and a test that fails.  Its
one fact is that of the sum, also where an adapter without a built-in was turned away. -/
theorem AdapterRegistry.evaluates_every_call_mixed :
    let query := "total(?Z) :- add(?Z, 1, 2), item(?Z), lessThan(2, 1)"
    let environment : Environment := { input := [], file := fun _ => .missing, colored := false }
    let sum := Builtin.fact "add" [.const "3" (some "Integer"), .const "1" none, .const "2" none]
    ∃ clause : Clause, Clause.parseQuery query = .ok clause ∧
      (AdapterRegistry.run ∅ [.standard ∅, .register { builtin? := none }]).deriveFacts
        (Registry.standard ∅).2 clause = .ok [sum] ∧
      ∃ lines, Command.run environment (.builtin query) =
          { status := 0, output := String.join lines, errorOutput := "" } ∧
        lines.length = 4 ∧ lines[1]? = some "add(?Z, 1, 2): add(3:Integer, 1, 2).\n" := by
  intro query environment sum
  let clause : Clause :=
    { atoms :=
        [.call "total" [.var 0 none],
          .call "add" [.var 0 none, .const "1" none, .const "2" none],
          .call "item" [.var 0 none],
          .call "lessThan" [.const "2" none, .const "1" none]]
      variableNames := ["Z"] }
  have hparse : Clause.parseQuery query = .ok clause := by decide +kernel
  have hstandard :=
    Registry.callAtom_standard SymbolTable.lists_empty Registry.size_standard_empty
  obtain ⟨hevaluates, hcommand⟩ := evaluates_every_call
  refine ⟨clause, hparse, ?_, ?_⟩
  · have hregistry : Registry.run ∅ [.standard ∅, .register { builtin? := none }] =
        (Registry.standard ∅).1 := Registry.attempt_of_none rfl
    rw [(hevaluates _ _).deriveFacts_agree, hregistry, Registry.deriveFacts, hstandard]
    decide +kernel
  · obtain ⟨lines, hrun, hlength, hlines⟩ := (hcommand environment query).2 clause hparse
    obtain ⟨answers, shown, hcall, hshown, hline⟩ := hlines 1 _ rfl
    have hsum : (AdapterRegistry.standard ∅).call (Registry.standard ∅).2 clause 1 =
        .ok (some [sum]) := by
      have hderives : StandardBuiltin.callAtom
          (.call "add" [.var 0 none, .const "1" none, .const "2" none]) = .derives sum := by
        decide +kernel
      refine ((hevaluates [.standard ∅] _).call_eq clause 1).trans ?_
      rw [← hstandard] at hderives
      exact congrArg (fun result : CallResult => Except.ok result.answers) hderives
    obtain rfl := Except.ok.inj (hsum.symm.trans hcall)
    cases hshown
    exact ⟨lines, hrun, hlength, hline.trans (by decide +kernel)⟩

end Posl
