import Posl.Session
import Posl.Proofs.Routing

/-!
# Histories of a table and a registry

Adapters are made against a symbol table, kept, and put into a registry at any
later time; the table and the registry can be started over in between.  A call is
answered by a built-in that was made for the name called, unless the table was
started over since the built-in was made.
-/

namespace Posl

namespace AdapterSource

theorem extends_make (source : AdapterSource) (table : SymbolTable) :
    (source.make table).2.Extends table := by
  cases source with
  | unconfigured => exact .refl table
  | standard builtin => exact table.extends_intern builtin.name
  | custom name answer? => exact table.extends_intern name

/-- What an adapter holds answers to the code that its name has as the adapter is made. -/
theorem isCurrent_make {source : AdapterSource} {table : SymbolTable}
    {builtin : Builtin} (hbuiltin : (source.make table).1.builtin? = some builtin) :
    builtin.IsCurrent (source.make table).2 := by
  cases source with
  | unconfigured => exact absurd hbuiltin (by simp [make])
  | standard source =>
      obtain rfl := Option.some.inj hbuiltin
      exact Builtin.isCurrent_make table source.name source.answer?
  | custom name answer? =>
      obtain rfl := Option.some.inj hbuiltin
      exact Builtin.isCurrent_make table name answer?

theorem exists_lists_make (source : AdapterSource) {table : SymbolTable}
    (hlists : ∃ names, table.Lists names) : ∃ names, (source.make table).2.Lists names := by
  obtain ⟨names, hlists⟩ := hlists
  cases source with
  | unconfigured => exact ⟨names, hlists⟩
  | standard builtin => exact ⟨_, hlists.intern builtin.name⟩
  | custom name answer? => exact ⟨_, hlists.intern name⟩

end AdapterSource

/-- A session and the adapters that were made in it, the latest last. -/
structure Workspace where
  session : Session
  adapters : List Adapter

namespace Workspace

/-- What is done in a workspace.  Calls are left out, as they change nothing. -/
inductive Step where
  | intern (name : String)
  | resetTable
  | clearRegistry
  | useStandard
  | make (source : AdapterSource)
  /-- Puts the adapter at a place among those made so far into the registry. -/
  | register (place : Nat)

def empty : Workspace := { session := ∅, adapters := [] }

instance : EmptyCollection Workspace := ⟨empty⟩

def registerAdapter (workspace : Workspace) (adapter : Adapter) : Workspace :=
  match workspace.session.registry.register adapter with
  | .ok (_, registry) => { workspace with session := { workspace.session with registry } }
  | .error _ => workspace

def step (workspace : Workspace) : Step → Workspace
  | .intern name => { workspace with session := (workspace.session.intern name).2 }
  | .resetTable => { workspace with session := workspace.session.resetTable }
  | .clearRegistry => { workspace with session := workspace.session.clearRegistry }
  | .useStandard => { workspace with session := workspace.session.useStandard }
  | .make source =>
    let (adapter, session) := workspace.session.makeAdapter source
    { session, adapters := workspace.adapters ++ [adapter] }
  | .register place =>
    match workspace.adapters[place]? with
    | some adapter => workspace.registerAdapter adapter
    | none => workspace

def run (workspace : Workspace) (steps : List Step) : Workspace := steps.foldl step workspace

/-- What every step of a history preserves holds at its end. -/
theorem run_invariant {holds : Workspace → Prop} {steps : List Step}
    (hstep : ∀ step ∈ steps, ∀ workspace, holds workspace → holds (workspace.step step))
    {workspace : Workspace} (hstart : holds workspace) : holds (workspace.run steps) := by
  induction steps generalizing workspace with
  | nil => exact hstart
  | cons step steps ih =>
      obtain ⟨hfirst, hothers⟩ := List.forall_mem_cons.mp hstep
      exact ih hothers (hfirst workspace hstart)

theorem run_cons (workspace : Workspace) (step : Step) (steps : List Step) :
    workspace.run (step :: steps) = (workspace.step step).run steps := rfl

theorem run_append (workspace : Workspace) (before after : List Step) :
    workspace.run (before ++ after) = (workspace.run before).run after :=
  List.foldl_append

theorem run_concat (workspace : Workspace) (steps : List Step) (step : Step) :
    workspace.run (steps ++ [step]) = (workspace.run steps).step step := by
  rw [run_append, run_cons]
  rfl

def Has (workspace : Workspace) (builtin : Builtin) : Prop :=
  (∃ id, workspace.session.registry.get? id = some builtin) ∨
    ∃ adapter ∈ workspace.adapters, adapter.builtin? = some builtin

theorem not_has_empty (builtin : Builtin) : ¬ Has ∅ builtin := by
  rintro (⟨id, hget⟩ | ⟨adapter, hadapter, -⟩)
  · exact absurd ((Registry.get?_empty id).symm.trans hget) (by simp)
  · exact absurd hadapter List.not_mem_nil

/-- The names of all built-ins have the codes that they had when the built-ins were
made, but for built-ins that may be stale. -/
structure CurrentExcept (stale : Builtin → Prop) (workspace : Workspace) : Prop where
  registry : workspace.session.registry.CurrentExcept stale workspace.session.table
  adapters : ∀ adapter ∈ workspace.adapters, ∀ builtin, adapter.builtin? = some builtin →
    builtin.IsCurrent workspace.session.table ∨ stale builtin

theorem currentExcept_empty (stale : Builtin → Prop) : CurrentExcept stale ∅ where
  registry := .empty stale ∅
  adapters := fun _ hadapter => absurd hadapter List.not_mem_nil

theorem step_useStandard (workspace : Workspace) :
    workspace.step .useStandard =
      { workspace with
        session :=
          { table := (Registry.standard workspace.session.table).2
            registry := (Registry.standard workspace.session.table).1 } } := by
  rw [step, Session.useStandard]

/-- Standard built-ins replace all that was registered. -/
theorem registry_step_useStandard (workspace : Workspace) :
    (workspace.step .useStandard).session.registry =
      (Registry.standard workspace.session.table).1 := by
  rw [step_useStandard]

theorem table_step_useStandard (workspace : Workspace) :
    (workspace.step .useStandard).session.table =
      (Registry.standard workspace.session.table).2 := by
  rw [step_useStandard]

section Invariant

variable {workspace : Workspace} {stale : Builtin → Prop}

namespace CurrentExcept

/-- A table that grows leaves the built-ins of the adapters current. -/
theorem replace (hcurrent : workspace.CurrentExcept stale) {registry : Registry}
    {later : SymbolTable} (hextends : later.Extends workspace.session.table)
    (hregistry : registry.CurrentExcept stale later) :
    CurrentExcept stale { workspace with session := { table := later, registry } } where
  registry := hregistry
  adapters := fun adapter hadapter builtin hbuiltin =>
    (hcurrent.adapters adapter hadapter builtin hbuiltin).imp_left (hextends _ _)

theorem extend (hcurrent : workspace.CurrentExcept stale) {later : SymbolTable}
    (hextends : later.Extends workspace.session.table) :
    CurrentExcept stale
      { workspace with session := { workspace.session with table := later } } :=
  hcurrent.replace hextends (hcurrent.registry.extend hextends)

/-- An adapter that is registered was among the adapters, so nothing new is stale. -/
theorem registerAdapter (hcurrent : workspace.CurrentExcept stale) {adapter : Adapter}
    (hadapter : adapter ∈ workspace.adapters) :
    (workspace.registerAdapter adapter).CurrentExcept stale := by
  rw [Workspace.registerAdapter, Registry.register]
  cases hbuiltin : adapter.builtin? with
  | none => exact hcurrent
  | some builtin =>
      exact ⟨hcurrent.registry.insert (hcurrent.adapters adapter hadapter builtin hbuiltin),
        hcurrent.adapters⟩

/-- Only starting the table over can make a built-in stale. -/
theorem step (hcurrent : workspace.CurrentExcept stale) {step : Step}
    (hstep : step ≠ .resetTable) : (workspace.step step).CurrentExcept stale := by
  cases step with
  | intern name => exact hcurrent.extend (workspace.session.table.extends_intern name)
  | resetTable => exact absurd rfl hstep
  | clearRegistry => exact ⟨.empty stale _, hcurrent.adapters⟩
  | useStandard =>
      rw [step_useStandard]
      exact hcurrent.replace (Registry.extends_standard _) (Registry.currentExcept_standard _ _)
  | make source =>
      have hextended := hcurrent.extend
        (AdapterSource.extends_make source workspace.session.table)
      refine ⟨hextended.registry, fun adapter hadapter builtin hbuiltin => ?_⟩
      rcases List.mem_append.mp hadapter with hold | hnew
      · exact hextended.adapters adapter hold builtin hbuiltin
      · obtain rfl := List.mem_singleton.mp hnew
        exact .inl (AdapterSource.isCurrent_make hbuiltin)
  | register place =>
      simp only [Workspace.step]
      split
      · next adapter hplace => exact hcurrent.registerAdapter (List.mem_of_getElem? hplace)
      · exact hcurrent

/-- Between two resets of the table nothing becomes stale, by induction over the steps. -/
theorem run (hcurrent : workspace.CurrentExcept stale) {steps : List Step}
    (hsteps : .resetTable ∉ steps) : (workspace.run steps).CurrentExcept stale :=
  run_invariant (fun _ hmem _ hheld => hheld.step fun heq => hsteps (heq ▸ hmem)) hcurrent

/-- Every built-in that a workspace has may be taken as stale. -/
theorem has (hcurrent : workspace.CurrentExcept stale) :
    workspace.CurrentExcept workspace.Has where
  registry := fun id builtin hget => ⟨(hcurrent.registry id builtin hget).1, .inr (.inl ⟨id, hget⟩)⟩
  adapters := fun adapter hadapter _ hbuiltin => .inr (.inr ⟨adapter, hadapter, hbuiltin⟩)

/-- Where all built-ins may be stale, starting the table over does no harm either. -/
theorem step_of_all (hcurrent : workspace.CurrentExcept fun _ => True) (step : Step) :
    (workspace.step step).CurrentExcept fun _ => True := by
  by_cases hstep : step = .resetTable
  · subst hstep
    exact ⟨fun id builtin hget => ⟨(hcurrent.registry id builtin hget).1, .inr trivial⟩,
      fun _ _ _ _ => .inr trivial⟩
  · exact hcurrent.step hstep

/-- With everything allowed to be stale, any history keeps the registry in order: each
built-in stands under its own code. -/
theorem run_of_all (hcurrent : workspace.CurrentExcept fun _ => True) (steps : List Step) :
    (workspace.run steps).CurrentExcept fun _ => True :=
  run_invariant (fun step _ _ hheld => hheld.step_of_all step) hcurrent

end CurrentExcept

theorem table_registerAdapter (workspace : Workspace) (adapter : Adapter) :
    (workspace.registerAdapter adapter).session.table = workspace.session.table := by
  rw [registerAdapter]
  split <;> rfl

/-- Every step leaves a table that lists some names. -/
theorem exists_lists_step (hlists : ∃ names, workspace.session.table.Lists names) (step : Step) :
    ∃ names, (workspace.step step).session.table.Lists names := by
  cases step with
  | intern name =>
      obtain ⟨names, hlists⟩ := hlists
      exact ⟨_, hlists.intern name⟩
  | resetTable => exact ⟨[], SymbolTable.lists_empty⟩
  | clearRegistry => exact hlists
  | useStandard =>
      obtain ⟨names, hlists⟩ := hlists
      rw [table_step_useStandard]
      exact ⟨_, Registry.lists_standard hlists⟩
  | make source => exact AdapterSource.exists_lists_make source hlists
  | register place =>
      simp only [step]
      split
      · next adapter _ => rwa [table_registerAdapter]
      · exact hlists

theorem exists_lists_run (steps : List Step) :
    ∃ names, (run ∅ steps).session.table.Lists names :=
  @run_invariant (fun workspace => ∃ names, workspace.session.table.Lists names) steps
    (fun step _ _ hheld => exists_lists_step hheld step) ∅ ⟨[], SymbolTable.lists_empty⟩

end Invariant

/-- A call that is answered is answered by a built-in that was made for the name
called, or was made before the table was last started over. -/
theorem call_answered_by_name_or_stale {before after : List Step} (hkept : .resetTable ∉ after)
    (hsize : (run ∅ (before ++ after)).session.table.size ≤ SymbolTable.capacity)
    {clause : Clause} {index : Nat} {result : CallResult}
    (hcall : (run ∅ (before ++ after)).session.call clause index = .ok result)
    (hresult : result ≠ .notBuiltin) :
    ∃ atom builtin, clause.atoms[index]? = some atom ∧
      (run ∅ (before ++ after)).session.registry.get? builtin.symbol = some builtin ∧
      result = .ofAnswer (builtin.answer? atom) ∧
      (atom.symbolName? = some builtin.name ∨ (run ∅ before).Has builtin) := by
  have hcurrent : (run ∅ (before ++ after)).CurrentExcept (run ∅ before).Has := by
    rw [run_append]
    exact ((currentExcept_empty _).run_of_all before).has.run hkept
  obtain ⟨names, hlists⟩ := exists_lists_run (before ++ after)
  rw [Session.call, Registry.call, Clause.atomAt] at hcall
  split at hcall
  · next atom hatom =>
      have hcalled := Except.ok.inj hcall
      obtain ⟨builtin, hroute, hanswer⟩ := (Registry.callAtom_eq_iff hresult).mp hcalled
      obtain ⟨name, hname, hbuiltin⟩ := Option.bind_eq_some_iff.mp hroute
      obtain ⟨-, hget, hmade⟩ := hcurrent.registry.of_builtinFor? hlists hsize hbuiltin
      exact ⟨atom, builtin, hatom, hget, hanswer, hmade.imp_left fun heq => by rw [hname, heq]⟩
  · exact absurd hcall (by simp [Except.map])

theorem session_useStandard :
    (run ∅ [.useStandard]).session =
      { table := (Registry.standard ∅).2, registry := (Registry.standard ∅).1 } := by
  rw [run, List.foldl_cons, List.foldl_nil, step_useStandard]
  rfl

theorem call_add_answered_by_name :
    (run ∅ [.useStandard]).session.call
        { atoms := [.call "add" [.anon, .const "1" none, .const "2" none]], variableNames := [] }
        0 = .ok (.derives (Builtin.fact "add"
          [.const "3" (some "Integer"), .const "1" none, .const "2" none])) ∧
    ∃ builtin,
      (run ∅ [.useStandard]).session.registry.get? builtin.symbol = some builtin ∧
      builtin.name = "add" := by
  have hcall : (run ∅ [.useStandard]).session.call
      { atoms := [.call "add" [.anon, .const "1" none, .const "2" none]], variableNames := [] }
      0 = .ok (.derives (Builtin.fact "add"
        [.const "3" (some "Integer"), .const "1" none, .const "2" none])) := by
    have hsum : StandardBuiltin.callAtom (.call "add" [.anon, .const "1" none, .const "2" none]) =
        .derives (Builtin.fact "add"
          [.const "3" (some "Integer"), .const "1" none, .const "2" none]) := by
      decide +kernel
    rw [session_useStandard, Session.call,
      Registry.call_standard SymbolTable.lists_empty Registry.size_standard_empty]
    exact congrArg Except.ok hsum
  have hsize : (run ∅ [.useStandard]).session.table.size ≤ SymbolTable.capacity := by
    rw [session_useStandard]
    exact Registry.size_standard_empty
  refine ⟨hcall, ?_⟩
  obtain ⟨atom, builtin, hatom, hget, -, hname | hstale⟩ :=
    @call_answered_by_name_or_stale [] [.useStandard] (by simp) hsize _ _ _ hcall (by simp)
  · obtain rfl := Option.some.inj hatom
    exact ⟨builtin, hget, (Option.some.inj hname).symm⟩
  · exact absurd hstale (not_has_empty builtin)

/-- The table is started over under a standard registry, and the first code goes to
another name. -/
def renumbering : List Step := [.useStandard, .resetTable, .intern "foo"]

/-- At the end of the renumbering the first code is that of another name, while the registry
is as before. -/
theorem run_renumbering :
    run ∅ renumbering =
      { session :=
          { table := (SymbolTable.intern ∅ "foo").2, registry := (Registry.standard ∅).1 }
        adapters := [] } := by
  rw [run, renumbering, List.foldl_cons, step_useStandard]
  rfl

/-- A name for which no built-in was ever made is answered by the one for sums. -/
theorem call_foo_answered_by_add :
    (run ∅ renumbering).session.call
        { atoms := [.call "foo" [.var 0 none, .const "1" none, .const "2" none]]
          variableNames := ["Z"] } 0 =
      .ok (.derives (Builtin.fact "add"
        [.const "3" (some "Integer"), .const "1" none, .const "2" none])) ∧
    ∀ builtin, (run ∅ renumbering).Has builtin → builtin.name ≠ "foo" := by
  rw [run_renumbering]
  constructor
  · obtain ⟨builtin, hget, hanswer⟩ := Registry.exists_add_standard_empty
    have hid : (SymbolTable.intern ∅ "foo").2.id? "foo" = some 0 :=
      ((SymbolTable.lists_empty.intern "foo").id?_iff "foo" 0).mpr ⟨0, rfl, rfl⟩
    have hroute : (Registry.standard ∅).1.route? (SymbolTable.intern ∅ "foo").2
        (.call "foo" [.var 0 none, .const "1" none, .const "2" none]) = some builtin := by
      rw [Registry.route?_eq, Term.call, Term.symbolName?, Option.bind_some, Registry.builtinFor?,
        hid, Option.bind_some, hget]
    have hcall := Registry.callAtom_of_route?_some hroute
    have hsum : StandardBuiltin.add.answer? (.call "foo" [.var 0 none, .const "1" none,
        .const "2" none]) = some (Builtin.fact "add"
          [.const "3" (some "Integer"), .const "1" none, .const "2" none]) := by
      decide +kernel
    rw [hanswer, hsum] at hcall
    exact congrArg Except.ok hcall
  · rintro builtin (⟨id, hget⟩ | ⟨adapter, hadapter, -⟩) hname
    · have hmem := Registry.name_mem_of_get?_standard_empty hget
      rw [hname] at hmem
      exact absurd hmem (by decide)
    · exact absurd hadapter List.not_mem_nil

end Workspace

end Posl
